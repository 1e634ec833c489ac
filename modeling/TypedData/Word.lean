/-!
# Machine words

The integers that a word of 64 bits can hold, with and without sign. Arithmetic on words is
checked: a result that no word holds is none at all, and the program stops there.

## Main definitions

* `Word.fitsSigned`, `Word.fitsUnsigned` — whether a word can hold an integer
* `Word.negate?` — the opposite of a signed word, if a signed word can hold it
-/

namespace TypedData.Word

/-- One more than the greatest signed word. -/
def signedBound : Nat := Nat.pow 2 63

/-- One more than the greatest unsigned word. -/
def unsignedBound : Nat := Nat.pow 2 64

/-- Whether a signed word can hold an integer. -/
def fitsSigned (n : Int) : Bool := -(signedBound : Int) ≤ n && n < signedBound

/-- Whether an unsigned word can hold an integer. -/
def fitsUnsigned (n : Int) : Bool := 0 ≤ n && n < unsignedBound

/-- The opposite of a signed word. The least word has none: the negation overflows. -/
def negate? (n : Int) : Option Int := if fitsSigned (-n) then some (-n) else none

end TypedData.Word
