import LittleComputer.Source.Scan
import LittleComputer.Text.Hex

/-!
# Literals of the source

A number is hexadecimal after `x` or `0x`, or decimal with an optional `#` and an optional minus. It
has to fit 32 bits and must not run on into a word. A string stands between double quotes, with six
escapes.
-/

namespace LittleComputer.Source

/-- The smallest number that a literal can denote. -/
def minNumber : Int := -2147483648

/-- The largest number that a literal can denote. -/
def maxNumber : Int := 2147483647

/-- A number, if a literal can denote it. -/
def number? (n : Int) : Option Int := if minNumber ≤ n ∧ n ≤ maxNumber then some n else none

/-- The mark in front of hexadecimal digits. -/
def hexMark : List Char → Option (List Char)
  | '0' :: 'x' :: r | '0' :: 'X' :: r | 'x' :: r | 'X' :: r => some r
  | _ => none

/-- A mark and the longest run of hexadecimal digits after it, of which there has to be one. -/
def hexadecimal : Scanner Int := fun s => do
  let digits ← hexMark s
  let ds := digits.takeWhile Text.Hex.isDigit
  if ds.isEmpty then none
  else
    let n ← number? (Text.Hex.ofDigits ds)
    some (n, digits.dropWhile Text.Hex.isDigit)

/-- An optional `#`, an optional minus and the longest run of digits after it, of which there has to
be one. -/
def decimal : Scanner Int := fun s =>
  let (negative, digits) := dropChar '-' (dropChar '#' s).2
  let ds := digits.takeWhile Char.isDigit
  if ds.isEmpty then none
  else do
    let magnitude : Int := Nat.ofDigitChars 10 ds 0
    let n ← number? (if negative then -magnitude else magnitude)
    some (n, digits.dropWhile Char.isDigit)

/-- A number, whatever follows it. -/
def numeral : Scanner Int := fun s => (hexadecimal s).or (decimal s)

/-- A number with no letter, digit or underscore after it. -/
def number : Scanner Int := fun s =>
  match numeral s with
  | some (n, c :: r) => if isWordChar c then none else some (n, c :: r)
  | some (n, []) => some (n, [])
  | none => none

/-- The character that an escape stands for, by the character after the backslash. -/
def unescape : Char → Option Char
  | '\\' => some '\\'
  | '"' => some '"'
  | 'n' => some '\n'
  | 't' => some '\t'
  | 'r' => some '\r'
  | '0' => some '\x00'
  | _ => none

/-- The rest of a string, from after its opening quote to after its closing one. -/
def stringRest : Scanner (List Char)
  | [] => none
  | '"' :: r => some ([], r)
  | ['\\'] => none
  | '\\' :: c :: r =>
    match unescape c with
    | some d => (stringRest r).map fun (s, rest) => (d :: s, rest)
    | none => none
  | c :: r => (stringRest r).map fun (s, rest) => (c :: s, rest)

/-- A string between double quotes. -/
def string : Scanner String
  | '"' :: r => (stringRest r).map fun (s, rest) => (String.ofList s, rest)
  | _ => none

/-- What is left is no longer than what there was. -/
private theorem length_dropWhile_le {p : Char → Bool} (s : List Char) :
    (s.dropWhile p).length ≤ s.length :=
  (List.dropWhile_suffix p).length_le

/-- A mark takes up a character. -/
theorem length_hexMark_lt {s r : List Char} (h : hexMark s = some r) : r.length < s.length := by
  unfold hexMark at h
  split at h <;> simp only [Option.some.injEq, reduceCtorEq] at h <;> subst h <;>
    simp only [List.length_cons] <;> omega

/-- What is left is shorter if anything was taken. -/
private theorem length_dropWhile_lt {p : Char → Bool} {s : List Char}
    (h : ¬(s.takeWhile p).isEmpty = true) : (s.dropWhile p).length < s.length := by
  cases s with
  | nil => simp at h
  | cons c r =>
    by_cases hc : p c = true
    · have := length_dropWhile_le (p := p) r
      simp only [List.dropWhile_cons, hc, if_true, List.length_cons]
      omega
    · simp [hc] at h

/-- A hexadecimal number takes up a character. -/
theorem consumes_hexadecimal : Consumes hexadecimal := by
  intro s a r h
  simp only [hexadecimal, Option.bind_eq_bind, Option.bind_eq_some_iff] at h
  obtain ⟨digits, hd, h⟩ := h
  split at h
  · simp at h
  · simp only [Option.bind_eq_some_iff, Option.some.injEq, Prod.mk.injEq] at h
    obtain ⟨_, _, _, rfl⟩ := h
    have := length_hexMark_lt hd
    have := length_dropWhile_le (p := Text.Hex.isDigit) digits
    omega

/-- A decimal number takes up a character. -/
theorem consumes_decimal : Consumes decimal := by
  intro s a r h
  simp only [decimal] at h
  split at h
  · simp at h
  · rename_i hne
    simp only [Option.bind_eq_bind, Option.bind_eq_some_iff, Option.some.injEq,
      Prod.mk.injEq] at h
    obtain ⟨_, _, _, rfl⟩ := h
    have := length_dropWhile_lt hne
    have := length_dropChar_le '-' (dropChar '#' s).2
    have := length_dropChar_le '#' s
    omega

/-- A number of either base takes up a character. -/
theorem consumes_numeral : Consumes numeral := by
  intro s a r h
  simp only [numeral, Option.or_eq_some_iff] at h
  rcases h with h | ⟨_, h⟩
  · exact consumes_hexadecimal s a r h
  · exact consumes_decimal s a r h

/-- A number that ends where a word ends is read in one of the bases. -/
theorem numeral_of_number {s r : List Char} {n : Int} (h : number s = some (n, r)) :
    numeral s = some (n, r) := by
  unfold number at h
  split at h
  · rename_i e
    split at h
    · simp at h
    · rw [e, ← h]
  · rename_i e
    rw [e, ← h]
  · simp at h

/-- A number takes up a character. -/
theorem consumes_number : Consumes number := fun s a r h =>
  consumes_numeral s a r (numeral_of_number h)

/-- The closing quote of a string takes up a character. -/
theorem consumes_stringRest : Consumes stringRest := by
  intro s
  fun_induction stringRest s with
  | case1 => simp
  | case2 r => rintro a t h; cases h; simp
  | case3 => simp
  | case4 c r d hd ih =>
    simp only [Option.map_eq_some_iff, Prod.mk.injEq, Prod.exists]
    rintro a t ⟨s', t', h, rfl, rfl⟩
    have := ih _ _ h
    simp only [List.length_cons]
    omega
  | case5 => simp
  | case6 c r _ _ _ ih =>
    simp only [Option.map_eq_some_iff, Prod.mk.injEq, Prod.exists]
    rintro a t ⟨s', t', h, rfl, rfl⟩
    have := ih _ _ h
    simp only [List.length_cons]
    omega

/-- A string takes up a character. -/
theorem consumes_string : Consumes string := by
  intro s a r h
  unfold string at h
  split at h
  · simp only [Option.map_eq_some_iff, Prod.mk.injEq, Prod.exists] at h
    obtain ⟨s', t', h, rfl, rfl⟩ := h
    have := consumes_stringRest _ _ _ h
    simp only [List.length_cons]
    omega
  · simp at h

end LittleComputer.Source
