namespace BlockLanguage

/-!
# Character classes given by ranges

A class of characters is written as a list of closed ranges of code points.

* `inRanges` — membership in such a list.
-/

/-- Whether the code point of `c` lies in one of the closed ranges. -/
def inRanges (ranges : List (Nat × Nat)) (c : Char) : Bool :=
  ranges.any fun r => r.1 ≤ c.toNat && c.toNat ≤ r.2

end BlockLanguage
