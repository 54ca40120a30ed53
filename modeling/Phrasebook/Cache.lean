import Phrasebook.Cache.Layout
import Phrasebook.Template

/-!
# Caches

A template's store is cached beside it, in a file with the same stem. A cache that is as new as its
template, and can be decoded, is taken instead of the template. Files that a template includes are
not looked at. A cache that cannot be written is done without.
-/
namespace Phrasebook.Cache

def fileExtension : String := "bin"

/-- The store in the cache of a template, if it is to be used. -/
def lookUp (fs : Files) (cache path : String) : Outcome (Option Store) := do
  if ← (fs.isStale cache path).mapError .file then return none
  else
    let bytes ← (fs.bytes cache).mapError .file
    return decode bytes

def save (fs : Files) (cache : String) (s : Store) : Files :=
  match fs.write cache (encode s) with
  | .ok fs => fs
  | .error _ => fs

def load (fs : Files) (path : String) : Outcome Store × Files :=
  match Path.sibling path fileExtension with
  | .error e => (.error e, fs)
  | .ok cache =>
    match lookUp fs cache path with
    | .error e => (.error e, fs)
    | .ok (some s) => (.ok s, fs)
    | .ok none =>
      match Template.load fs path with
      | .error e => (.error e, fs)
      | .ok s => (.ok s, save fs cache s)

end Phrasebook.Cache
