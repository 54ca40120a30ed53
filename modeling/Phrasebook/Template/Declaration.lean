import Phrasebook.Count
import Phrasebook.Definition
import Phrasebook.Rule.Block

/-!
# Declaration lines

A declaration line is a block with a sigil, which names what is declared, and for an intent the
count that is asked for:

    ~[name]   @[&name#variation]   %[name#variation](12)
-/
namespace Phrasebook

/-- What follows the block of a declaration: nothing, or an intent's count in parentheses. -/
def Declaration.readCount (kind : Kind) (line : String) (after : List Char) :
    Outcome (Option UInt64) := do
  if after.isEmpty then return none
  else if kind = .intent && after.head? = some '(' && after.getLast? = some ')' then
    let count ← Count.asked line
    if after.tail.dropLast.any fun c => c = '(' || c = ')' then throw (.malformed line .secondCount)
    else
      match count with
      | some n => return some n
      | none => throw (.badLine line .textAfterDeclaration)
  else throw (.badLine line .textAfterDeclaration)

/-- A declaration without rules, from its line. -/
def Declaration.read (text : List Char) : Outcome Declaration := do
  let line := String.ofList text
  match Text.splitAtMark? ']' text with
  | none => throw (.malformed line .noClosingBracket)
  | some (before, after) =>
    let head := before ++ [']']
    let block ← Block.read head
    match block.kind with
    | none => throw (.misuse (.notADeclaration (.ofList head)))
    | some kind =>
      if block.modifiers.group.isSome then throw (.malformed (.ofList head) .groupOnDeclaration)
      else
        let count ← readCount kind line (Text.trim after)
        return ⟨kind, block.name, block.modifiers.casing, ⟨block.modifiers.variation, count, []⟩⟩

end Phrasebook
