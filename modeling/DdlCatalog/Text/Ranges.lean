namespace DdlCatalog.Text

/-- Whether a character lies in one of several runs, each given by its first and last code point. -/
def inRanges (ranges : Array (Nat × Nat)) (c : Char) : Bool :=
  ranges.any fun (first, last) => first ≤ c.toNat && c.toNat ≤ last

end DdlCatalog.Text
