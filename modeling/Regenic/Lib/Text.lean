import Mathlib.Algebra.GroupWithZero.Nat
import Mathlib.Data.List.Basic
import Mathlib.Data.List.DropRight

/-!
The ECMAScript string operations the source relies on, over lists of code
points. Strings with lone surrogates are outside the model.
-/

namespace Regenic.Lib

/-- `WhiteSpace` and `LineTerminator` of ECMAScript: what `trim` and `\s` match. -/
def isJsSpace (c : Char) : Bool :=
  let n := c.toNat
  (9 ≤ n && n ≤ 13) || n == 32 || n == 0xA0 || n == 0x1680 ||
    (0x2000 ≤ n && n ≤ 0x200A) || n == 0x2028 || n == 0x2029 || n == 0x202F ||
    n == 0x205F || n == 0x3000 || n == 0xFEFF

def trimChars (cs : List Char) : List Char :=
  ((cs.dropWhile isJsSpace).reverse.dropWhile isJsSpace).reverse

/-- `String.prototype.trim`. -/
def jsTrim (s : String) : String := String.ofList (trimChars s.toList)

/-- `toLowerCase` where the result is compared with an ASCII word: the only
letters outside ASCII that lower into ASCII by themselves are the Kelvin sign
and none other. -/
def lowerChar (c : Char) : Char :=
  if c.toNat = 0x212A then 'k' else c.toLower

def jsLower (s : String) : String := String.ofList (s.toList.map lowerChar)

/-- An optional string that JavaScript takes as true: present and not empty. -/
def present (s : Option String) : Option String := s.filter fun v => v ≠ ""

@[simp] theorem present_none : present none = none := rfl

theorem present_some {s : Option String} {v : String} :
    present s = some v ↔ s = some v ∧ v ≠ "" := by
  cases s with
  | none => simp
  | some u =>
    by_cases hu : u = ""
    · simp only [present, Option.filter, hu]
      constructor
      · intro h
        cases h
      · rintro ⟨h, hv⟩
        exact absurd (Option.some.inj h).symm hv
    · simp only [present, Option.filter, hu, ne_eq, not_false_eq_true, decide_true,
        if_true, Option.some.injEq]
      constructor
      · rintro rfl
        exact ⟨rfl, hu⟩
      · exact fun h => h.1

theorem present_eq_none {s : Option String} :
    present s = none ↔ s = none ∨ s = some "" := by
  cases s with
  | none => simp
  | some u =>
    by_cases hu : u = "" <;> simp [present, Option.filter, hu]

theorem present_present (s : Option String) : present (present s) = present s := by
  cases s with
  | none => rfl
  | some u => by_cases hu : u = "" <;> simp [present, Option.filter, hu]

/-- `startsWith`. -/
def hasPrefix (start s : String) : Bool := start.toList.isPrefixOf s.toList

/-- `endsWith`. -/
def hasSuffix (ending s : String) : Bool := ending.toList.isSuffixOf s.toList

/-- `indexOf`, over code points. -/
def indexOf? (needle : List Char) : List Char → Option Nat
  | [] => if needle = [] then some 0 else none
  | c :: rest =>
    if needle.isPrefixOf (c :: rest) then some 0
    else (indexOf? needle rest).map (· + 1)

/-- `lastIndexOf` of one character. -/
def lastIndexOf? (needle : Char) (cs : List Char) : Option Nat :=
  (indexOf? [needle] cs.reverse).map fun fromEnd => cs.length - 1 - fromEnd

/-- `replace(/\s+/g, " ")`; the flag says that the last character was a blank. -/
def collapseSpaces : Bool → List Char → List Char
  | _, [] => []
  | afterSpace, c :: rest =>
    if isJsSpace c then
      if afterSpace then collapseSpaces true rest else ' ' :: collapseSpaces true rest
    else c :: collapseSpaces false rest

/-- `replace(/\r\n?/g, "\n")`; the flag says that the last character was a return. -/
def newlines : Bool → List Char → List Char
  | _, [] => []
  | afterReturn, c :: rest =>
    if c = '\r' then '\n' :: newlines true rest
    else if afterReturn && c = '\n' then newlines false rest
    else c :: newlines false rest

def normalizeNewlines (s : String) : String := String.ofList (newlines false s.toList)

/-! ## Joined text -/

/-- Text before the first separator and text after it are read back from the whole. -/
theorem append_separator_inj {α : Type} {separator : α} {left right rest rest' : List α}
    (hleft : separator ∉ left) (hright : separator ∉ right)
    (h : left ++ separator :: rest = right ++ separator :: rest') :
    left = right ∧ rest = rest' := by
  induction left generalizing right with
  | nil =>
    cases right with
    | nil =>
      simp only [List.nil_append, List.cons.injEq, true_and] at h
      exact ⟨rfl, h⟩
    | cons c right =>
      simp only [List.nil_append, List.cons_append, List.cons.injEq] at h
      exact absurd (List.mem_cons.mpr (Or.inl h.1)) hright
  | cons c left ih =>
    cases right with
    | nil =>
      simp only [List.nil_append, List.cons_append, List.cons.injEq] at h
      exact absurd (List.mem_cons.mpr (Or.inl h.1.symm)) hleft
    | cons d right =>
      simp only [List.cons_append, List.cons.injEq] at h
      have htail := ih (fun hmem => hleft (List.mem_cons_of_mem c hmem))
        (fun hmem => hright (List.mem_cons_of_mem d hmem)) h.2
      exact ⟨by rw [h.1, htail.1], htail.2⟩

theorem natRepr_digits {n : Nat} {c : Char} (h : c ∈ (Nat.repr n).toList) : c.isDigit := by
  have hdigits : c ∈ Nat.toDigits 10 n := by simpa [Nat.repr] using h
  exact Nat.isDigit_of_mem_toDigits (by decide) (by decide) hdigits

theorem natRepr_injective {m n : Nat} (h : Nat.repr m = Nat.repr n) : m = n := by
  have hdigits : Nat.toDigits 10 m = Nat.toDigits 10 n := by
    simpa [Nat.repr] using congrArg String.toList h
  simpa using congrArg (fun digits => Nat.ofDigitChars 10 digits 0) hdigits

/-- Digits, with a sign in front of a negative number. -/
theorem toString_negSucc (n : Nat) :
    (toString (Int.negSucc n)).toList = '-' :: (Nat.repr n.succ).toList := by
  change ("-" ++ Nat.repr n.succ).toList = _
  simp

theorem toString_int_injective : Function.Injective fun n : ℤ => toString n := by
  intro m n h
  cases m with
  | ofNat m =>
    cases n with
    | ofNat n => rw [natRepr_injective h]
    | negSucc n =>
      have hlist := (congrArg String.toList h).trans (toString_negSucc n)
      have hdigit := natRepr_digits (n := m) (c := '-') (hlist ▸ List.mem_cons_self)
      exact absurd hdigit (by decide)
  | negSucc m =>
    cases n with
    | ofNat n =>
      have hlist := (congrArg String.toList h).symm.trans (toString_negSucc m)
      have hdigit := natRepr_digits (n := n) (c := '-') (hlist ▸ List.mem_cons_self)
      exact absurd hdigit (by decide)
    | negSucc n =>
      have hlist := (toString_negSucc m).symm.trans
        ((congrArg String.toList h).trans (toString_negSucc n))
      have hsame := natRepr_injective (String.toList_inj.mp (List.cons.inj hlist).2)
      rw [Nat.succ.inj hsame]

/-- `length`, in UTF-16 code units. -/
def utf16Length (s : String) : Nat :=
  (s.toList.map fun c => if c.toNat < 0x10000 then 1 else 2).sum

/-! ## Trimming twice -/

theorem dropWhile_rdropWhile (p : Char → Bool) (cs : List Char) :
    ((cs.dropWhile p).rdropWhile p).dropWhile p = (cs.dropWhile p).rdropWhile p := by
  rw [List.dropWhile_eq_self_iff]
  intro hpositive
  obtain ⟨suffix, happend⟩ := List.rdropWhile_prefix p (cs.dropWhile p)
  have hlength : 0 < (cs.dropWhile p).length := by
    rw [← happend, List.length_append]
    omega
  have hhead := List.dropWhile_get_zero_not p cs hlength
  have hget : (cs.dropWhile p)[0] = ((cs.dropWhile p).rdropWhile p)[0] := by
    rw [List.getElem_of_eq happend.symm]
    exact List.getElem_append_left hpositive
  rw [← hget]
  exact hhead

theorem trimChars_trimChars (cs : List Char) : trimChars (trimChars cs) = trimChars cs := by
  have hdrop := dropWhile_rdropWhile isJsSpace cs
  have htrim : ∀ cs, trimChars cs = (cs.dropWhile isJsSpace).rdropWhile isJsSpace :=
    fun _ => rfl
  rw [htrim (trimChars cs), htrim cs, hdrop, List.rdropWhile_idempotent]

@[simp] theorem jsTrim_jsTrim (s : String) : jsTrim (jsTrim s) = jsTrim s := by
  unfold jsTrim
  rw [String.toList_ofList, trimChars_trimChars]

theorem trimChars_of_ends {first last : Char} (mid : List Char)
    (hfirst : isJsSpace first = false) (hlast : isJsSpace last = false) :
    trimChars (first :: (mid ++ [last])) = first :: (mid ++ [last]) := by
  unfold trimChars
  rw [List.dropWhile_cons_of_neg (by simp [hfirst])]
  have hreverse : (first :: (mid ++ [last])).reverse = last :: (mid.reverse ++ [first]) := by
    simp
  rw [hreverse, List.dropWhile_cons_of_neg (by simp [hlast]), ← hreverse, List.reverse_reverse]

theorem isJsSpace_digit {c : Char} (h : c.isDigit) : isJsSpace c = false := by
  have hrange : 48 ≤ c.toNat ∧ c.toNat ≤ 57 := by
    simpa [Char.isDigit, UInt32.le_iff_toNat_le] using h
  simp only [isJsSpace, Bool.or_eq_false_iff, Bool.and_eq_false_iff, beq_eq_false_iff_ne,
    decide_eq_false_iff_not]
  omega

theorem natRepr_append_digit (n : Nat) :
    ∃ digits last, (Nat.repr n).toList = digits ++ [last] ∧ last.isDigit := by
  have hne : (Nat.repr n).toList ≠ [] := by
    simp [Nat.repr, Nat.toDigits_ne_nil]
  refine ⟨_, _, (List.dropLast_append_getLast hne).symm, ?_⟩
  exact natRepr_digits (List.getLast_mem hne)

/-! ## Lists in a text -/

/-- `Array.prototype.join` with one character. -/
def joinWith (separator : Char) : List (List Char) → List Char
  | [] => []
  | [part] => part
  | part :: rest => part ++ separator :: joinWith separator rest

/-- `String.prototype.split` by one character. -/
def splitBy (separator : Char) : List Char → List (List Char)
  | [] => [[]]
  | c :: rest =>
    if c = separator then [] :: splitBy separator rest
    else
      match splitBy separator rest with
      | [] => [[c]]
      | part :: parts => (c :: part) :: parts

theorem splitBy_plain {separator : Char} {part : List Char} (hpart : separator ∉ part) :
    splitBy separator part = [part] := by
  induction part with
  | nil => rfl
  | cons c part ih =>
    rw [List.mem_cons, not_or] at hpart
    have hc : c ≠ separator := fun heq => hpart.1 heq.symm
    simp only [splitBy, if_neg hc, ih hpart.2]

theorem splitBy_append {separator : Char} {part : List Char} (hpart : separator ∉ part)
    (rest : List Char) :
    splitBy separator (part ++ separator :: rest) = part :: splitBy separator rest := by
  induction part with
  | nil => simp only [List.nil_append, splitBy, if_true]
  | cons c part ih =>
    rw [List.mem_cons, not_or] at hpart
    have hc : c ≠ separator := fun heq => hpart.1 heq.symm
    simp only [List.cons_append, splitBy, if_neg hc, ih hpart.2]

/-- What `join` puts together, `split` takes apart. -/
theorem splitBy_joinWith {separator : Char} {parts : List (List Char)} (hne : parts ≠ [])
    (hparts : ∀ part ∈ parts, separator ∉ part) :
    splitBy separator (joinWith separator parts) = parts := by
  induction parts with
  | nil => exact absurd rfl hne
  | cons part parts ih =>
    have hpart : separator ∉ part := hparts part List.mem_cons_self
    cases parts with
    | nil => exact splitBy_plain hpart
    | cons next parts =>
      have hrest := ih (List.cons_ne_nil _ _) fun part hmem =>
        hparts part (List.mem_cons_of_mem _ hmem)
      rw [joinWith, splitBy_append hpart, hrest]
      exact nofun

theorem joinWith_ne_nil {separator : Char} {parts : List (List Char)} (hne : parts ≠ [])
    (hparts : ∀ part ∈ parts, part ≠ []) : joinWith separator parts ≠ [] := by
  cases parts with
  | nil => exact absurd rfl hne
  | cons part parts =>
    cases parts with
    | nil => exact hparts part List.mem_cons_self
    | cons next parts =>
      rw [joinWith]
      · simp
      · exact nofun

end Regenic.Lib
