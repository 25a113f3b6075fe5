import Regenic.Lib.Text

/-!
Strings as sequences of UTF-16 code units. `Array.from` takes a string apart into code points;
a string that is cut between two of them is taken apart as before on both sides of the cut.
-/

namespace Regenic.Lib

abbrev CodeUnits : Type := List UInt16

def isHighSurrogate (unit : UInt16) : Bool := 0xD800 ≤ unit && unit ≤ 0xDBFF

def isLowSurrogate (unit : UInt16) : Bool := 0xDC00 ≤ unit && unit ≤ 0xDFFF

/-- `Array.from` of a string: a surrogate pair is one element, a lone surrogate another. -/
def codePoints : CodeUnits → List CodeUnits
  | [] => []
  | [unit] => [[unit]]
  | unit :: next :: rest =>
    if isHighSurrogate unit && isLowSurrogate next then [unit, next] :: codePoints rest
    else [unit] :: codePoints (next :: rest)

/-- The code units of a text. -/
def utf16 (s : String) : CodeUnits :=
  s.toList.flatMap fun c =>
    if c.toNat < 0x10000 then [UInt16.ofNat c.toNat]
    else
      [UInt16.ofNat (0xD800 + (c.toNat - 0x10000) / 0x400),
        UInt16.ofNat (0xDC00 + (c.toNat - 0x10000) % 0x400)]

/-- What `<` compares of two strings. -/
def codeUnits (s : String) : List ℕ := (utf16 s).map UInt16.toNat

/-- `Buffer.byteLength(s, "utf8")`; a lone surrogate is written as U+FFFD. -/
def utf8Length (units : CodeUnits) : Nat :=
  ((codePoints units).map fun point =>
    match point with
    | [unit] => if unit < 0x80 then 1 else if unit < 0x800 then 2 else 3
    | _ => 4).sum

/-- `!s.trim()`. -/
def isBlank (units : CodeUnits) : Bool := units.all fun unit => isJsSpace (Char.ofNat unit.toNat)

def lastIndexOfUnit (unit : UInt16) (units : CodeUnits) : Option Nat :=
  (units.reverse.findIdx? (· = unit)).map fun back => units.length - 1 - back

theorem codePoints_flatten (units : CodeUnits) : (codePoints units).flatten = units := by
  induction units using codePoints.induct with
  | case1 => rfl
  | case2 unit => rfl
  | case3 unit next rest hpair ih =>
    rw [codePoints, if_pos hpair, List.flatten_cons, ih]
    rfl
  | case4 unit next rest hpair ih =>
    rw [codePoints, if_neg hpair, List.flatten_cons, ih]
    rfl

theorem codePoints_ne_nil {units point : CodeUnits} (h : point ∈ codePoints units) :
    point ≠ [] := by
  induction units using codePoints.induct with
  | case1 => cases h
  | case2 unit =>
    rw [codePoints, List.mem_singleton] at h
    rw [h]
    exact List.cons_ne_nil _ _
  | case3 unit next rest hpair ih =>
    rw [codePoints, if_pos hpair, List.mem_cons] at h
    rcases h with rfl | hmem
    · exact List.cons_ne_nil _ _
    · exact ih hmem
  | case4 unit next rest hpair ih =>
    rw [codePoints, if_neg hpair, List.mem_cons] at h
    rcases h with rfl | hmem
    · exact List.cons_ne_nil _ _
    · exact ih hmem

theorem codePoints_eq_nil {units : CodeUnits} : codePoints units = [] ↔ units = [] := by
  constructor
  · intro h
    rw [← codePoints_flatten units, h, List.flatten_nil]
  · rintro rfl
    rfl

/-- The code points before a cut. -/
theorem codePoints_take (units : CodeUnits) (n : Nat) :
    codePoints ((codePoints units).take n).flatten = (codePoints units).take n := by
  induction units using codePoints.induct generalizing n with
  | case1 => simp [codePoints]
  | case2 unit =>
    cases n with
    | zero => rfl
    | succ n => simp [codePoints]
  | case3 unit next rest hpair ih =>
    cases n with
    | zero => rfl
    | succ n =>
      rw [codePoints, if_pos hpair, List.take_succ_cons, List.flatten_cons]
      change codePoints (unit :: next :: ((codePoints rest).take n).flatten) = _
      rw [codePoints, if_pos hpair, ih]
  | case4 unit next rest hpair ih =>
    cases n with
    | zero => rfl
    | succ n =>
      have htail := ih n
      rw [codePoints, if_neg hpair, List.take_succ_cons, List.flatten_cons]
      cases n with
      | zero => rfl
      | succ n =>
        -- What follows still begins with `next`, so that no pair comes about.
        obtain ⟨more, hmore⟩ :
            ∃ more, ((codePoints (next :: rest)).take (n + 1)).flatten = next :: more := by
          cases rest with
          | nil => exact ⟨[], by simp [codePoints]⟩
          | cons after rest =>
            rw [codePoints]
            split
            · exact ⟨_, rfl⟩
            · exact ⟨_, rfl⟩
        rw [hmore] at htail ⊢
        change codePoints (unit :: next :: more) = _
        rw [codePoints, if_neg hpair, htail]

/-- The code points after a cut. -/
theorem codePoints_drop (units : CodeUnits) (n : Nat) :
    codePoints ((codePoints units).drop n).flatten = (codePoints units).drop n := by
  induction units using codePoints.induct generalizing n with
  | case1 => simp [codePoints]
  | case2 unit =>
    cases n with
    | zero => rfl
    | succ n => simp [codePoints]
  | case3 unit next rest hpair ih =>
    cases n with
    | zero => rw [List.drop_zero, codePoints_flatten]
    | succ n =>
      rw [codePoints, if_pos hpair, List.drop_succ_cons]
      exact ih n
  | case4 unit next rest hpair ih =>
    cases n with
    | zero => rw [List.drop_zero, codePoints_flatten]
    | succ n =>
      rw [codePoints, if_neg hpair, List.drop_succ_cons]
      exact ih n

/-! ## Injectivity -/

/-- The code units of one character, as numbers. -/
def charUnits (c : Char) : List ℕ :=
  if c.toNat < 0x10000 then [c.toNat]
  else [0xD800 + (c.toNat - 0x10000) / 0x400, 0xDC00 + (c.toNat - 0x10000) % 0x400]

theorem toNat_lt (c : Char) : c.toNat < 0x110000 := by
  rcases c.valid with h | h
  · exact Nat.lt_of_lt_of_le h (by decide)
  · exact h.2

theorem notSurrogateChar (c : Char) : c.toNat < 0xD800 ∨ 0xDFFF < c.toNat := by
  rcases c.valid with h | h
  · exact .inl h
  · exact .inr h.1

theorem codeUnits_eq (s : String) : codeUnits s = s.toList.flatMap charUnits := by
  unfold codeUnits utf16
  rw [List.map_flatMap]
  apply List.flatMap_congr
  intro c _
  have hlt := toNat_lt c
  unfold charUnits
  by_cases hsmall : c.toNat < 0x10000
  · rw [if_pos hsmall, if_pos hsmall, List.map_singleton, UInt16.toNat_ofNat_of_lt' hsmall]
  · rw [if_neg hsmall, if_neg hsmall, List.map_cons, List.map_singleton,
      UInt16.toNat_ofNat_of_lt' (by show _ < 65536; omega),
      UInt16.toNat_ofNat_of_lt' (by show _ < 65536; omega)]

theorem charUnits_append_inj {c d : Char} {rest rest' : List ℕ}
    (h : charUnits c ++ rest = charUnits d ++ rest') : c = d ∧ rest = rest' := by
  have hc := notSurrogateChar c
  have hd := notSurrogateChar d
  have hc' := toNat_lt c
  have hd' := toNat_lt d
  have heq : c.toNat = d.toNat ∧ rest = rest' := by
    unfold charUnits at h
    split at h <;> split at h <;>
      simp only [List.cons_append, List.nil_append, List.cons.injEq] at h
    · exact h
    · omega
    · omega
    · exact ⟨by omega, h.2.2⟩
  exact ⟨Char.toNat_inj.mp heq.1, heq.2⟩

theorem charUnits_ne_nil (c : Char) (rest : List ℕ) : charUnits c ++ rest ≠ [] := by
  unfold charUnits
  split <;> exact List.cons_ne_nil _ _

/-- Strings of the same code units are the same. -/
theorem codeUnits_injective : Function.Injective codeUnits := by
  intro s t h
  rw [codeUnits_eq, codeUnits_eq] at h
  have hlist : ∀ left right : List Char, left.flatMap charUnits = right.flatMap charUnits →
      left = right := by
    intro left
    induction left with
    | nil =>
      intro right hunits
      cases right with
      | nil => rfl
      | cons d rest => exact absurd hunits.symm (charUnits_ne_nil d _)
    | cons c rest ih =>
      intro right hunits
      cases right with
      | nil => exact absurd hunits (charUnits_ne_nil c _)
      | cons d rest' =>
        rw [List.flatMap_cons, List.flatMap_cons] at hunits
        obtain ⟨rfl, hrest⟩ := charUnits_append_inj hunits
        rw [ih rest' hrest]
  exact String.toList_inj.mp (hlist s.toList t.toList h)

theorem utf16_injective : Function.Injective utf16 := by
  intro s t h
  exact codeUnits_injective (congrArg (List.map UInt16.toNat) h)

end Regenic.Lib
