import HaskellAgent.Lib.Json
import Mathlib.Data.List.Nodup

/-!
# Reading JSON texts

Two values that differ in how their numbers are written, or in members that a later one of the same
key replaces, say the same.  A normal value is the one of them whose numbers have no exponent they
can be without, and whose objects have each key once.  The reader here reads the compact texts that
an encoder writes, to normal values.

## Main definitions

* `Json.norm` — the normal value that says the same.
* `Json.writeNumber`, `Json.read` — a way to write numbers, and the reader.
-/

open List Option

namespace Json

/-! ### Normal values -/

/-- A coefficient without the tens that its negative exponent can spare. -/
def reduce : ℕ → ℤ → ℤ × ℤ
  | 0, c => (c, 0)
  | k + 1, c => if c % 10 = 0 then reduce k (c / 10) else (c, Int.negSucc k)

def normNumber (c e : ℤ) : ℤ × ℤ :=
  match e with
  | .ofNat k => (c * 10 ^ k, 0)
  | .negSucc k => reduce (k + 1) c

/-- Of several members with one key, the last. -/
def lastMembers {α : Type*} : List (List Char × α) → List (List Char × α)
  | [] => []
  | m :: ms => if m.1 ∈ ms.map Prod.fst then lastMembers ms else m :: lastMembers ms

mutual

def norm : Json → Json
  | .null => .null
  | .bool value => .bool value
  | .number c e => .number (normNumber c e).1 (normNumber c e).2
  | .string s => .string s
  | .array xs => .array (normElements xs)
  | .object ms => .object (lastMembers (normMembers ms))

def normElements : List Json → List Json
  | [] => []
  | x :: xs => norm x :: normElements xs

def normMembers : List (List Char × Json) → List (List Char × Json)
  | [] => []
  | (k, x) :: ms => (k, norm x) :: normMembers ms

end

theorem normElements_eq_map (xs : List Json) : normElements xs = xs.map norm := by
  induction xs with
  | nil => rw [normElements, map_nil]
  | cons x xs ih => rw [normElements, ih, map_cons]

theorem normMembers_eq_map (ms : List (List Char × Json)) :
    normMembers ms = ms.map fun m => (m.1, norm m.2) := by
  induction ms with
  | nil => rw [normMembers, map_nil]
  | cons m ms ih => rw [normMembers, ih, map_cons]

theorem reduce_cases (k : ℕ) (c : ℤ) :
    (reduce k c).2 = 0 ∨ ∃ j, (reduce k c).2 = Int.negSucc j ∧ (reduce k c).1 % 10 ≠ 0 := by
  induction k generalizing c with
  | zero => exact .inl rfl
  | succ k ih =>
    rw [reduce]
    by_cases hc : c % 10 = 0
    · rw [if_pos hc]
      exact ih (c / 10)
    · rw [if_neg hc]
      exact .inr ⟨k, rfl, hc⟩

theorem normNumber_normNumber (c e : ℤ) :
    normNumber (normNumber c e).1 (normNumber c e).2 = normNumber c e := by
  cases e with
  | ofNat k => simp [normNumber]
  | negSucc k =>
    rcases hr : reduce (k + 1) c with ⟨c', e'⟩
    have hcases := reduce_cases (k + 1) c
    rw [hr] at hcases
    simp only [normNumber, hr]
    rcases hcases with he | ⟨j, he, hc⟩
    · subst he
      simp
    · subst he
      show reduce (j + 1) c' = _
      simp only [reduce, if_neg hc]

section LastMembers

variable {α : Type*}

theorem lastMembers_sublist (ms : List (List Char × α)) : (lastMembers ms).Sublist ms := by
  induction ms with
  | nil => exact List.Sublist.refl _
  | cons m ms ih =>
    rw [lastMembers]
    by_cases hm : m.1 ∈ ms.map Prod.fst
    · rw [if_pos hm]
      exact ih.cons m
    · rw [if_neg hm]
      exact ih.cons_cons m

theorem lastMembers_eq_self {ms : List (List Char × α)} (h : (ms.map Prod.fst).Nodup) :
    lastMembers ms = ms := by
  induction ms with
  | nil => rfl
  | cons m ms ih =>
    rw [map_cons, nodup_cons] at h
    rw [lastMembers, if_neg h.1, ih h.2]

theorem nodup_lastMembers (ms : List (List Char × α)) :
    ((lastMembers ms).map Prod.fst).Nodup := by
  induction ms with
  | nil => exact nodup_nil
  | cons m ms ih =>
    rw [lastMembers]
    by_cases hm : m.1 ∈ ms.map Prod.fst
    · rwa [if_pos hm]
    · rw [if_neg hm, map_cons, nodup_cons]
      have hsub := (lastMembers_sublist ms).map Prod.fst
      exact ⟨fun hin => hm (hsub.subset hin), ih⟩

theorem lastMembers_map {β : Type*} (f : α → β) (ms : List (List Char × α)) :
    lastMembers (ms.map fun m => (m.1, f m.2)) = (lastMembers ms).map fun m => (m.1, f m.2) := by
  induction ms with
  | nil => rfl
  | cons m ms ih =>
    have hkeys : (ms.map fun m => (m.1, f m.2)).map Prod.fst = ms.map Prod.fst := by
      rw [List.map_map]
      rfl
    rw [map_cons, lastMembers, lastMembers, hkeys, ih]
    by_cases hm : m.1 ∈ ms.map Prod.fst
    · rw [if_pos hm, if_pos hm]
    · rw [if_neg hm, if_neg hm, map_cons]

end LastMembers

/-! ### The reader -/

/-- A number: an integer where its value is one, and else with an exponent. -/
def writeNumber : ℤ → ℤ → List Char
  | c, .ofNat k => renderInt (c * 10 ^ k)
  | c, .negSucc k => renderInt c ++ 'e' :: renderInt (.negSucc k)

def signed (minus : Bool) (n : ℕ) : ℤ := if minus then -(n : ℤ) else n

def readSign : List Char → Bool × List Char
  | '-' :: cs => (true, cs)
  | cs => (false, cs)

/-- The digits behind a point. -/
def readFraction : List Char → List Char × List Char
  | '.' :: cs => (cs.takeWhile Char.isDigit, cs.dropWhile Char.isDigit)
  | cs => ([], cs)

def readExponent : List Char → ℤ × List Char
  | 'e' :: cs =>
      let (minus, cs) := readSign cs
      (signed minus (Nat.ofDigitChars 10 (cs.takeWhile Char.isDigit) 0), cs.dropWhile Char.isDigit)
  | cs => (0, cs)

def readNumber (cs : List Char) : Option (Json × List Char) :=
  let (minus, cs) := readSign cs
  let digits := cs.takeWhile Char.isDigit
  let (fraction, cs) := readFraction (cs.dropWhile Char.isDigit)
  let (e, cs) := readExponent cs
  let number := normNumber (signed minus (Nat.ofDigitChars 10 (digits ++ fraction) 0))
    (e - fraction.length)
  if digits = [] then none else some (.number number.1 number.2, cs)

def hexValue (c : Char) : ℕ := if c.isDigit then c.toNat - 48 else c.toNat - 87

def unescape : Char → Option Char
  | '"' => some '"'
  | '\\' => some '\\'
  | '/' => some '/'
  | 'n' => some '\n'
  | 'r' => some '\r'
  | 't' => some '\t'
  | _ => none

/-- What is behind the opening quote of a string. -/
def readChars : List Char → Option (List Char × List Char)
  | [] => none
  | '"' :: cs => some ([], cs)
  | '\\' :: 'u' :: a :: b :: c :: d :: cs =>
      (readChars cs).map fun (s, rest) =>
        (Char.ofNat (((hexValue a * 16 + hexValue b) * 16 + hexValue c) * 16 + hexValue d) :: s, rest)
  | '\\' :: c :: cs => do
      let c ← unescape c
      let (s, rest) ← readChars cs
      pure (c :: s, rest)
  | c :: cs => (readChars cs).map fun (s, rest) => (c :: s, rest)

def readWord (word : List Char) (value : Json) (cs : List Char) : Option (Json × List Char) :=
  if word.isPrefixOf cs then some (value, cs.drop word.length) else none

mutual

def readValue : ℕ → List Char → Option (Json × List Char)
  | 0, _ => none
  | _ + 1, [] => none
  | fuel + 1, c :: cs =>
      if c = '"' then (readChars cs).map fun (s, rest) => (.string s, rest)
      else if c = '[' then
        if cs.head? = some ']' then some (.array [], cs.tail)
        else (readElements fuel cs).map fun (xs, rest) => (.array xs, rest)
      else if c = '{' then
        if cs.head? = some '}' then some (.object [], cs.tail)
        else (readMembers fuel cs).map fun (ms, rest) => (.object (lastMembers ms), rest)
      else if c = 'n' then readWord ['u', 'l', 'l'] .null cs
      else if c = 't' then readWord ['r', 'u', 'e'] (.bool true) cs
      else if c = 'f' then readWord ['a', 'l', 's', 'e'] (.bool false) cs
      else readNumber (c :: cs)

def readElements : ℕ → List Char → Option (List Json × List Char)
  | 0, _ => none
  | fuel + 1, cs =>
      match readValue fuel cs with
      | some (x, ']' :: rest) => some ([x], rest)
      | some (x, ',' :: rest) => (readElements fuel rest).map fun (xs, rest) => (x :: xs, rest)
      | _ => none

def readMembers : ℕ → List Char → Option (List (List Char × Json) × List Char)
  | 0, _ => none
  | fuel + 1, '"' :: cs =>
      match readChars cs with
      | some (k, ':' :: cs) =>
          match readValue fuel cs with
          | some (x, '}' :: rest) => some ([(k, x)], rest)
          | some (x, ',' :: rest) =>
              (readMembers fuel rest).map fun (ms, rest) => ((k, x) :: ms, rest)
          | _ => none
      | _ => none
  | _ + 1, _ => none

end

/-- The value of a compact text. -/
def read (text : List Char) : Option Json :=
  match readValue (2 * text.length) text with
  | some (v, []) => some v
  | _ => none

/-- What may stand behind a value. -/
def Ends (rest : List Char) : Prop := ∀ c ∈ rest.head?, c = ',' ∨ c = ']' ∨ c = '}'

/-! ### Numbers -/

theorem takeWhile_digits {digits rest : List Char} (hdigits : ∀ c ∈ digits, c.isDigit = true)
    (hrest : ∀ c ∈ rest.head?, c.isDigit = false) :
    (digits ++ rest).takeWhile Char.isDigit = digits ∧
      (digits ++ rest).dropWhile Char.isDigit = rest := by
  have hstop : rest.takeWhile Char.isDigit = [] ∧ rest.dropWhile Char.isDigit = rest := by
    cases rest with
    | nil => exact ⟨rfl, rfl⟩
    | cons c rest =>
      have hc := hrest c rfl
      simp [hc]
  rw [takeWhile_append_of_pos hdigits, dropWhile_append_of_pos hdigits, hstop.1, hstop.2,
    List.append_nil]
  exact ⟨rfl, rfl⟩

theorem isDigit_toDigits (n : ℕ) : ∀ c ∈ Nat.toDigits 10 n, c.isDigit = true :=
  fun _ hc => Nat.isDigit_of_mem_toDigits (by decide) (by decide) hc

theorem readSign_renderInt (n : ℤ) (rest : List Char) :
    readSign (renderInt n ++ rest) = (decide (n < 0), Nat.toDigits 10 n.natAbs ++ rest) := by
  rw [renderInt]
  by_cases hn : n < 0
  · rw [if_pos hn, decide_eq_true hn]
    rfl
  · rw [if_neg hn, decide_eq_false hn]
    cases hdigits : Nat.toDigits 10 n.natAbs with
    | nil => exact absurd hdigits Nat.toDigits_ne_nil
    | cons d digits =>
      have hd : d.isDigit = true := isDigit_toDigits n.natAbs d (by rw [hdigits]; exact .head _)
      rw [cons_append]
      unfold readSign
      split
      · rename_i heq
        cases heq
        exact absurd hd (by decide)
      · rfl

theorem signed_natAbs (n : ℤ) : signed (decide (n < 0)) n.natAbs = n := by
  rw [signed]
  by_cases hn : n < 0
  · rw [if_pos (decide_eq_true hn)]
    omega
  · rw [if_neg (by simpa using hn)]
    omega

variable {rest : List Char}

theorem Ends.not_digit (h : Ends rest) :
    ∀ c ∈ rest.head?, c.isDigit = false := by
  intro c hc
  rcases h c hc with rfl | rfl | rfl <;> decide

theorem Ends.readFraction (h : Ends rest) : readFraction rest = ([], rest) := by
  cases rest with
  | nil => rfl
  | cons c rest => rcases h c rfl with rfl | rfl | rfl <;> rfl

theorem Ends.readExponent (h : Ends rest) : readExponent rest = (0, rest) := by
  cases rest with
  | nil => rfl
  | cons c rest => rcases h c rfl with rfl | rfl | rfl <;> rfl

theorem readExponent_renderInt (n : ℤ) (h : Ends rest) :
    readExponent ('e' :: (renderInt n ++ rest)) = (n, rest) := by
  obtain ⟨htake, hdrop⟩ := takeWhile_digits (isDigit_toDigits n.natAbs) h.not_digit
  simp only [Json.readExponent, readSign_renderInt, htake, hdrop, Nat.ofDigitChars_ten_toDigits,
    signed_natAbs]

/-- The digits of a coefficient, and whatever follows them. -/
theorem readNumber_renderInt (c : ℤ) {tail rest : List Char} {e : ℤ}
    (hdigit : ∀ d ∈ tail.head?, d.isDigit = false) (hfraction : readFraction tail = ([], tail))
    (hexponent : readExponent tail = (e, rest)) :
    readNumber (renderInt c ++ tail) =
      some (.number (normNumber c e).1 (normNumber c e).2, rest) := by
  obtain ⟨htake, hdrop⟩ := takeWhile_digits (isDigit_toDigits c.natAbs) hdigit
  simp only [readNumber, readSign_renderInt, htake, hdrop, hfraction, hexponent, List.append_nil,
    Nat.ofDigitChars_ten_toDigits, signed_natAbs, length_nil, Int.ofNat_zero, Int.sub_zero,
    if_neg Nat.toDigits_ne_nil]

theorem readNumber_writeNumber (c e : ℤ) (h : Ends rest) :
    readNumber (writeNumber c e ++ rest) =
      some (.number (normNumber c e).1 (normNumber c e).2, rest) := by
  cases e with
  | ofNat k =>
    rw [writeNumber, readNumber_renderInt _ h.not_digit h.readFraction h.readExponent]
    simp [normNumber]
  | negSucc k =>
    rw [writeNumber, append_assoc, cons_append]
    refine readNumber_renderInt c ?_ rfl (readExponent_renderInt _ h)
    intro d hd
    obtain rfl : 'e' = d := by simpa using hd
    decide

/-! ### Strings -/

theorem hexValue_hexDigit : ∀ n < 16, hexValue (hexDigit n) = n := by decide

theorem readChars_escapeChar (c : Char) (cs : List Char) :
    readChars (escapeChar c ++ cs) = (readChars cs).map fun (s, rest) => (c :: s, rest) := by
  unfold escapeChar
  split_ifs with h₁ h₂ h₃ h₄ h₅ h₆
  · subst h₁
    simp [readChars, unescape, map_eq_bind]
  · subst h₂
    simp [readChars, unescape, map_eq_bind]
  · rw [singleton_append, readChars]
    · exact h₂
    · intro _ _ _ _ _ h
      exact absurd h h₁
    · intro _ _ h
      exact absurd h h₁
  · subst h₄
    simp [readChars, unescape, map_eq_bind]
  · subst h₅
    simp [readChars, unescape, map_eq_bind]
  · subst h₆
    simp [readChars, unescape, map_eq_bind]
  · have hlow : hexValue (hexDigit (c.toNat / 16)) = c.toNat / 16 := hexValue_hexDigit _ (by omega)
    have hhigh : hexValue (hexDigit (c.toNat % 16)) = c.toNat % 16 := hexValue_hexDigit _ (by omega)
    have hzero : hexValue '0' = 0 := by decide
    have hcode : ((hexValue '0' * 16 + hexValue '0') * 16 + hexValue (hexDigit (c.toNat / 16))) * 16 +
        hexValue (hexDigit (c.toNat % 16)) = c.toNat := by
      rw [hzero, hlow, hhigh]
      omega
    simp only [cons_append, nil_append, readChars, hcode, Char.ofNat_toNat]

theorem readChars_renderString (s rest : List Char) :
    readChars (s.flatMap escapeChar ++ '"' :: rest) = some (s, rest) := by
  induction s with
  | nil => rfl
  | cons c s ih =>
    rw [flatMap_cons, append_assoc, readChars_escapeChar, ih, map_some]

/-! ### Values -/

theorem renderInt_eq_cons (n : ℤ) :
    ∃ c cs, renderInt n = c :: cs ∧ (c = '-' ∨ c.isDigit = true) := by
  rw [renderInt]
  by_cases hn : n < 0
  · rw [if_pos hn]
    exact ⟨_, _, rfl, .inl rfl⟩
  · rw [if_neg hn]
    cases hdigits : Nat.toDigits 10 n.natAbs with
    | nil => exact absurd hdigits Nat.toDigits_ne_nil
    | cons d digits =>
      exact ⟨d, digits, rfl, .inr (isDigit_toDigits n.natAbs d (by rw [hdigits]; exact .head _))⟩

theorem writeNumber_eq_cons (c e : ℤ) :
    ∃ d ds, writeNumber c e = d :: ds ∧ (d = '-' ∨ d.isDigit = true) := by
  cases e with
  | ofNat k => exact renderInt_eq_cons _
  | negSucc k =>
    obtain ⟨d, ds, heq, hd⟩ := renderInt_eq_cons c
    refine ⟨d, ds ++ 'e' :: renderInt (.negSucc k), ?_, hd⟩
    rw [writeNumber, heq, cons_append]

/-- No value begins as an array ends. -/
theorem head_render_ne (v : Json) : (render writeNumber v).head? ≠ some ']' := by
  cases v with
  | null => rw [render]; decide
  | bool value => cases value <;> simp
  | number c e =>
    obtain ⟨d, ds, heq, hd⟩ := writeNumber_eq_cons c e
    rw [render_number, heq]
    intro h
    cases h
    rcases hd with h | h
    · exact absurd h (by decide)
    · exact absurd h (by decide)
  | string s => rw [render_string]; exact fun h => absurd (some.inj h) (by decide)
  | array xs => rw [render_array]; exact fun h => absurd (some.inj h) (by decide)
  | object ms => rw [render_object]; exact fun h => absurd (some.inj h) (by decide)

theorem render_ne_nil (v : Json) : render writeNumber v ≠ [] := by
  cases v with
  | null => rw [render]; exact cons_ne_nil _ _
  | bool value => cases value <;> simp
  | number c e =>
    obtain ⟨d, ds, heq, -⟩ := writeNumber_eq_cons c e
    rw [render_number, heq]
    exact cons_ne_nil _ _
  | string s => rw [render_string]; exact cons_ne_nil _ _
  | array xs => rw [render_array]; exact cons_ne_nil _ _
  | object ms => rw [render_object]; exact cons_ne_nil _ _

theorem head_renderElements_ne (x : Json) (xs : List Json) (rest : List Char) :
    (renderElements writeNumber (x :: xs) ++ rest).head? ≠ some ']' := by
  have hx := head_render_ne x
  have hne := render_ne_nil x
  cases xs with
  | nil =>
    rw [renderElements, List.head?_append_of_ne_nil _ hne]
    exact hx
  | cons y xs =>
    rw [renderElements, append_assoc, List.head?_append_of_ne_nil _ hne]
    exact hx

theorem readValue_number {c : Char} {cs : List Char} (h : c = '-' ∨ c.isDigit = true) (fuel : ℕ) :
    readValue (fuel + 1) (c :: cs) = readNumber (c :: cs) := by
  have hne : ∀ d : Char, d ≠ '-' → d.isDigit = false → c ≠ d := by
    rintro d hminus hdigit rfl
    rcases h with h | h
    · exact hminus h
    · rw [hdigit] at h
      cases h
  simp only [readValue, hne '"' (by decide) (by decide), hne '[' (by decide) (by decide),
    hne '{' (by decide) (by decide), hne 'n' (by decide) (by decide),
    hne 't' (by decide) (by decide), hne 'f' (by decide) (by decide), if_false]

mutual

theorem readValue_render : ∀ (v : Json) (fuel : ℕ) (rest : List Char),
    2 * (render writeNumber v).length ≤ fuel → Ends rest →
      readValue fuel (render writeNumber v ++ rest) = some (norm v, rest)
  | v, 0, rest, hfuel, _ => by
    have hpos := length_pos_of_ne_nil (render_ne_nil v)
    omega
  | .null, fuel + 1, rest, _, _ => by
    rw [render, norm]
    simp [readValue, readWord]
  | .bool true, fuel + 1, rest, _, _ => by
    rw [render_bool_true, norm]
    simp [readValue, readWord]
  | .bool false, fuel + 1, rest, _, _ => by
    rw [render_bool_false, norm]
    simp [readValue, readWord]
  | .number c e, fuel + 1, rest, _, hrest => by
    obtain ⟨d, ds, heq, hd⟩ := writeNumber_eq_cons c e
    have hread := readNumber_writeNumber c e hrest
    rw [heq, cons_append] at hread
    rw [render_number, norm, heq, cons_append, readValue_number hd, hread]
  | .string s, fuel + 1, rest, _, _ => by
    have hread := readChars_renderString s rest
    rw [render_string, norm, renderString, cons_append, append_assoc, cons_append,
      nil_append, readValue, if_pos rfl, hread, map_some]
  | .array [], fuel + 1, rest, _, _ => by
    rw [render_array, norm, renderElements, normElements]
    simp [readValue]
  | .array (x :: xs), fuel + 1, rest, hfuel, _ => by
    rw [render_array, length_cons, length_append, length_singleton] at hfuel
    have hread := readElements_render (x :: xs) (cons_ne_nil x xs) fuel rest (by omega)
    have hhead := head_renderElements_ne x xs (']' :: rest)
    rw [render_array, norm, cons_append, append_assoc, cons_append, nil_append]
    simp only [readValue, hhead, if_false, hread]
    simp
  | .object [], fuel + 1, rest, _, _ => by
    rw [render_object, norm, renderMembers, normMembers]
    simp [readValue, lastMembers]
  | .object ((k, x) :: ms), fuel + 1, rest, hfuel, _ => by
    rw [render_object, length_cons, length_append, length_singleton] at hfuel
    have hread := readMembers_render ((k, x) :: ms) (cons_ne_nil _ ms) fuel rest (by omega)
    have hhead : (renderMembers writeNumber ((k, x) :: ms) ++ '}' :: rest).head? ≠ some '}' := by
      cases ms <;> exact fun h => absurd (some.inj h) (by decide)
    rw [render_object, norm, cons_append, append_assoc, cons_append, nil_append]
    simp only [readValue, hhead, if_false, hread]
    simp

theorem readElements_render : ∀ (xs : List Json), xs ≠ [] → ∀ (fuel : ℕ) (rest : List Char),
    2 * (renderElements writeNumber xs).length + 1 ≤ fuel →
      readElements fuel (renderElements writeNumber xs ++ ']' :: rest) =
        some (normElements xs, rest)
  | [], h, _, _, _ => absurd rfl h
  | [x], _, fuel + 1, rest, hfuel => by
    rw [renderElements] at hfuel
    have hread := readValue_render x fuel (']' :: rest) (by omega) (by simp [Ends])
    rw [renderElements, normElements, normElements]
    simp only [readElements, hread]
  | x :: y :: xs, _, fuel + 1, rest, hfuel => by
    rw [renderElements, length_append, length_cons] at hfuel
    have hread := readValue_render x fuel
      (',' :: (renderElements writeNumber (y :: xs) ++ ']' :: rest)) (by omega) (by simp [Ends])
    have helements := readElements_render (y :: xs) (cons_ne_nil y xs) fuel rest (by omega)
    rw [renderElements, normElements, append_assoc, cons_append]
    simp only [readElements, hread, helements, map_some]

theorem readMembers_render : ∀ (ms : List (List Char × Json)), ms ≠ [] →
    ∀ (fuel : ℕ) (rest : List Char), 2 * (renderMembers writeNumber ms).length + 1 ≤ fuel →
      readMembers fuel (renderMembers writeNumber ms ++ '}' :: rest) =
        some (normMembers ms, rest)
  | [], h, _, _, _ => absurd rfl h
  | [(k, x)], _, fuel + 1, rest, hfuel => by
    rw [renderMembers, length_append, length_cons] at hfuel
    have hkey := readChars_renderString k (':' :: (render writeNumber x ++ '}' :: rest))
    have hread := readValue_render x fuel ('}' :: rest) (by omega) (by simp [Ends])
    rw [renderMembers, normMembers, normMembers, renderString]
    simp only [cons_append, append_assoc, nil_append, readMembers, hkey, hread]
  | (k, x) :: m :: ms, _, fuel + 1, rest, hfuel => by
    rw [renderMembers, length_append, length_append, length_cons,
      length_cons] at hfuel
    have hmembers := readMembers_render (m :: ms) (cons_ne_nil m ms) fuel rest (by omega)
    have hread := readValue_render x fuel
      (',' :: (renderMembers writeNumber (m :: ms) ++ '}' :: rest)) (by omega) (by simp [Ends])
    have hkey := readChars_renderString k
      (':' :: (render writeNumber x ++ ',' :: (renderMembers writeNumber (m :: ms) ++ '}' :: rest)))
    rw [renderMembers, normMembers, renderString]
    simp only [cons_append, append_assoc, nil_append, readMembers, hkey, hread,
      hmembers, map_some]

end

/-- **What is written is read back, up to normal form.** -/
theorem read_render (v : Json) : read (render writeNumber v) = some (norm v) := by
  have hread := readValue_render v (2 * (render writeNumber v).length) [] (Nat.le_refl _) (by
    simp [Ends])
  rw [List.append_nil] at hread
  rw [read, hread]

theorem norm_readNumber {cs : List Char} {v : Json} {rest : List Char}
    (h : readNumber cs = some (v, rest)) : norm v = v := by
  simp only [readNumber] at h
  split at h
  · cases h
  · cases h
    rw [norm, normNumber_normNumber]

theorem norm_readWord {word : List Char} {value v : Json} {cs rest : List Char}
    (hvalue : norm value = value) (h : readWord word value cs = some (v, rest)) : norm v = v := by
  rw [readWord] at h
  split at h
  · cases h
    exact hvalue
  · cases h

/-- A reader finds normal values. -/
theorem norm_readValue (fuel : ℕ) :
    (∀ {cs v rest}, readValue fuel cs = some (v, rest) → norm v = v) ∧
      (∀ {cs xs rest}, readElements fuel cs = some (xs, rest) → normElements xs = xs) ∧
      ∀ {cs ms rest}, readMembers fuel cs = some (ms, rest) → normMembers ms = ms := by
  induction fuel with
  | zero =>
    refine ⟨fun h => ?_, fun h => ?_, fun h => ?_⟩
    · rw [readValue] at h; cases h
    · rw [readElements] at h; cases h
    · rw [readMembers] at h; cases h
  | succ fuel ih =>
    obtain ⟨ihvalue, ihelements, ihmembers⟩ := ih
    refine ⟨fun {cs v rest} h => ?_, fun {cs xs rest} h => ?_, fun {cs ms rest} h => ?_⟩
    · cases cs with
      | nil => rw [readValue] at h; cases h
      | cons c cs =>
        rw [readValue] at h
        split at h
        · obtain ⟨⟨s, rest'⟩, -, heq⟩ := map_eq_some_iff.mp h
          cases heq
          rw [norm]
        split at h
        · split at h
          · cases h
            rw [norm, normElements]
          · obtain ⟨⟨xs, rest'⟩, hxs, heq⟩ := map_eq_some_iff.mp h
            cases heq
            rw [norm, ihelements hxs]
        split at h
        · split at h
          · cases h
            rw [norm, normMembers, lastMembers]
          · obtain ⟨⟨ms, rest'⟩, hms, heq⟩ := map_eq_some_iff.mp h
            cases heq
            have hnorm := ihmembers hms
            rw [normMembers_eq_map] at hnorm
            rw [norm, normMembers_eq_map, ← lastMembers_map norm, hnorm,
              lastMembers_eq_self (nodup_lastMembers ms)]
        split at h
        · exact norm_readWord (by rw [norm]) h
        split at h
        · exact norm_readWord (by rw [norm]) h
        split at h
        · exact norm_readWord (by rw [norm]) h
        · exact norm_readNumber h
    · rw [readElements] at h
      split at h
      · rename_i x rest' hx
        cases h
        rw [normElements, normElements, ihvalue hx]
      · rename_i x rest' hx
        obtain ⟨⟨xs', rest''⟩, hxs, heq⟩ := map_eq_some_iff.mp h
        cases heq
        rw [normElements, ihvalue hx, ihelements hxs]
      · cases h
    · unfold readMembers at h
      split at h
      · cases h
      · rename_i hfuel
        obtain rfl := Nat.succ.inj hfuel
        split at h
        · split at h
          · rename_i x rest' hx
            cases h
            rw [normMembers, normMembers, ihvalue hx]
          · rename_i x rest' hx
            obtain ⟨⟨ms', rest''⟩, hms, heq⟩ := map_eq_some_iff.mp h
            cases heq
            rw [normMembers, ihvalue hx, ihmembers hms]
          · cases h
        · cases h
      · cases h

theorem norm_read {text : List Char} {v : Json} (h : read text = some v) : norm v = v := by
  rw [read] at h
  split at h
  · rename_i hread
    cases h
    exact (norm_readValue _).1 hread
  · cases h

end Json
