/-!
# Kinds

Authors declare aliases, slots and intents. Each kind has a sigil that introduces its declarations
and the references to it.
-/
namespace Phrasebook

inductive Kind where
  | alias
  | slot
  | intent
deriving DecidableEq, Repr

namespace Kind

def all : List Kind := [.alias, .slot, .intent]

def sigil : Kind → Char
  | .alias => '~'
  | .slot => '@'
  | .intent => '%'

def ofSigil? (c : Char) : Option Kind :=
  if c = '~' then some .alias
  else if c = '@' then some .slot
  else if c = '%' then some .intent
  else none

def noun : Kind → String
  | .alias => "alias"
  | .slot => "slot"
  | .intent => "intent"

theorem ofSigil?_sigil (k : Kind) : ofSigil? k.sigil = some k := by
  cases k <;> rfl

theorem sigil_of_ofSigil? {c : Char} {k : Kind} (h : ofSigil? c = some k) : c = k.sigil := by
  unfold ofSigil? at h
  repeat' split at h
  all_goals simp_all [sigil]
  all_goals (subst h; rfl)

end Kind
end Phrasebook
