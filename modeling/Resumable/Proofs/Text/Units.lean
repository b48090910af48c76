import Resumable.Source.Position

/-!
# Code units

The language counts and indexes its strings in UTF-16 code units. A character of the first
plane is one unit, any other a pair of surrogates; the units of a text tell its characters.
-/

namespace Resumable.Text

/-- The code units of a code point. -/
def unitsOf (code : Nat) : List Nat :=
  if code < 0x10000 then [code]
  else [0xd800 + (code - 0x10000) / 0x400, 0xdc00 + (code - 0x10000) % 0x400]

/-- The code units of a character. -/
def units (c : Char) : List Nat := unitsOf c.toNat

/-- The first unit of a pair. -/
def isHighSurrogate (unit : Nat) : Bool := 0xd800 ≤ unit && unit < 0xdc00

/-- The second unit of a pair. -/
def isLowSurrogate (unit : Nat) : Bool := 0xdc00 ≤ unit && unit < 0xe000

/-- The code point of a pair. -/
def paired (high low : Nat) : Nat := 0x10000 + (high - 0xd800) * 0x400 + (low - 0xdc00)

/-- The characters that code units stand for. A surrogate outside a pair stands for none. -/
def ofUnits? : List Nat → Option (List Char)
  | [] => some []
  | [unit] => if isHighSurrogate unit || isLowSurrogate unit then none else some [Char.ofNat unit]
  | unit :: low :: rest =>
    if isHighSurrogate unit then
      if isLowSurrogate low then (ofUnits? rest).map (Char.ofNat (paired unit low) :: ·) else none
    else if isLowSurrogate unit then none
    else (ofUnits? (low :: rest)).map (Char.ofNat unit :: ·)

section Units

variable {unit high low : Nat} {rest : List Nat}

theorem ofUnits?_cons (hhigh : isHighSurrogate unit = false) (hlow : isLowSurrogate unit = false) :
    ofUnits? (unit :: rest) = (ofUnits? rest).map (Char.ofNat unit :: ·) := by
  cases rest with
  | nil => simp [ofUnits?, hhigh, hlow]
  | cons next rest => simp [ofUnits?, hhigh, hlow]

theorem ofUnits?_pair (hhigh : isHighSurrogate high = true) (hlow : isLowSurrogate low = true) :
    ofUnits? (high :: low :: rest) =
      (ofUnits? rest).map (Char.ofNat (paired high low) :: ·) := by
  simp [ofUnits?, hhigh, hlow]

/-- No character is a surrogate. -/
theorem toNat_lt_or_le (c : Char) : c.toNat < 0xd800 ∨ (0xe000 ≤ c.toNat ∧ c.toNat < 0x110000) := by
  have hvalid : c.toNat < 0xd800 ∨ (0xdfff < c.toNat ∧ c.toNat < 0x110000) := c.valid
  omega

/-- The units of a character, read with others behind them. -/
theorem ofUnits?_units_append (c : Char) (rest : List Nat) :
    ofUnits? (units c ++ rest) = (ofUnits? rest).map (c :: ·) := by
  have hc := toNat_lt_or_le c
  unfold units unitsOf
  split
  · have hhigh : isHighSurrogate c.toNat = false := by simp [isHighSurrogate]; omega
    have hlow : isLowSurrogate c.toNat = false := by simp [isLowSurrogate]; omega
    rw [List.singleton_append, ofUnits?_cons hhigh hlow, Char.ofNat_toNat]
  · have hhigh : isHighSurrogate (0xd800 + (c.toNat - 0x10000) / 0x400) = true := by
      simp [isHighSurrogate]
      omega
    have hlow : isLowSurrogate (0xdc00 + (c.toNat - 0x10000) % 0x400) = true := by
      simp [isLowSurrogate]
      omega
    have hpaired : paired (0xd800 + (c.toNat - 0x10000) / 0x400)
        (0xdc00 + (c.toNat - 0x10000) % 0x400) = c.toNat := by
      unfold paired
      omega
    rw [List.cons_append, List.singleton_append, ofUnits?_pair hhigh hlow, hpaired,
      Char.ofNat_toNat]

/-- The characters are told by their units. -/
theorem ofUnits?_flatMap_units (text : List Char) : ofUnits? (text.flatMap units) = some text := by
  induction text with
  | nil => simp [ofUnits?]
  | cons c rest ih => rw [List.flatMap_cons, ofUnits?_units_append, ih, Option.map_some]

end Units

end Resumable.Text
