import Phrasebook.Error
import Phrasebook.Random.Keystream

/-!
# Settings

How much is generated. An intent whose combinations are few enough is enumerated, others are
sampled. The number of utterances sampled in place of an enumeration is positive.
-/
namespace Phrasebook

structure Settings where
  /-- Without a seed every run is different. -/
  seed : Option UInt64 := none
  /-- Attempts per wanted utterance that may be spent on avoiding duplicates. -/
  dedupFactor : UInt64 := 4
  /-- The most combinations that are enumerated. -/
  maxEnumeration : UInt64 := 1000
  /-- The most utterances that one request may ask for. -/
  maxCount : UInt64 := 100000
  fallback : UInt64 := 100
  fallback_pos : 0 < fallback := by decide

namespace Settings

def withFallback (s : Settings) (count : UInt64) : Outcome Settings :=
  if h : 0 < count then .ok { s with fallback := count, fallback_pos := h }
  else .error (.invalidCount (.notPositive "0"))

/-- The words of a run, from its seed or else from the given entropy. -/
def words (s : Settings) (entropy : UInt64) : Words := .seeded (s.seed.getD entropy)

end Settings
end Phrasebook
