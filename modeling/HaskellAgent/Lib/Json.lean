import Mathlib.Algebra.Order.BigOperators.Group.List
import Mathlib.Data.Nat.Digits.Defs

/-!
# JSON values

The values of JSON documents, and the compact text that an encoder writes for them.  A number is a
coefficient times a power of ten, and the members of an object are a list, so that their order is
kept where it matters.  How a number is written is a parameter.

## Main definitions

* `Json` — the values.
* `Json.decEq` — equality of values is decidable.
* `Json.render` — the text of a value.
* `utf8Length` — the bytes of a text.
-/

inductive Json
  | null
  | bool (value : Bool)
  | number (coefficient exponent : ℤ)
  | string (value : List Char)
  | array (elements : List Json)
  | object (members : List (List Char × Json))

open List

namespace Json

mutual

/-- Equality of values, by comparison of their parts. -/
def beq : Json → Json → Bool
  | .null, .null => true
  | .bool a, .bool b => a == b
  | .number c e, .number c' e' => c == c' && e == e'
  | .string s, .string t => s == t
  | .array xs, .array ys => beqElements xs ys
  | .object ms, .object ns => beqMembers ms ns
  | _, _ => false

def beqElements : List Json → List Json → Bool
  | [], [] => true
  | x :: xs, y :: ys => beq x y && beqElements xs ys
  | _, _ => false

def beqMembers : List (List Char × Json) → List (List Char × Json) → Bool
  | [], [] => true
  | (k, x) :: ms, (l, y) :: ns => k == l && beq x y && beqMembers ms ns
  | _, _ => false

end

mutual

theorem beq_iff : ∀ a b : Json, beq a b = true ↔ a = b
  | .null, b => by cases b <;> simp [beq]
  | .bool _, b => by cases b <;> simp [beq]
  | .number _ _, b => by cases b <;> simp [beq]
  | .string _, b => by cases b <;> simp [beq]
  | .array xs, b => by
    cases b with
    | array ys => simp [beq, beqElements_iff xs ys]
    | _ => simp [beq]
  | .object ms, b => by
    cases b with
    | object ns => simp [beq, beqMembers_iff ms ns]
    | _ => simp [beq]

theorem beqElements_iff : ∀ xs ys : List Json, beqElements xs ys = true ↔ xs = ys
  | [], ys => by cases ys <;> simp [beqElements]
  | x :: xs, ys => by
    cases ys with
    | nil => simp [beqElements]
    | cons y ys => simp [beqElements, beq_iff x y, beqElements_iff xs ys]

theorem beqMembers_iff : ∀ ms ns : List (List Char × Json), beqMembers ms ns = true ↔ ms = ns
  | [], ns => by cases ns <;> simp [beqMembers]
  | (k, x) :: ms, ns => by
    cases ns with
    | nil => simp [beqMembers]
    | cons n ns =>
      obtain ⟨l, y⟩ := n
      simp [beqMembers, beq_iff x y, beqMembers_iff ms ns]

end

instance decEq : DecidableEq Json := fun a b => decidable_of_iff _ (beq_iff a b)

/-! ### Rendering -/

/-- A hexadecimal digit. -/
def hexDigit (n : ℕ) : Char := if n < 10 then Char.ofNat (48 + n) else Char.ofNat (87 + n)

def escapeChar (c : Char) : List Char :=
  if c = '\\' then ['\\', '\\']
  else if c = '"' then ['\\', '"']
  else if 0x20 ≤ c.toNat then [c]
  else if c = '\n' then ['\\', 'n']
  else if c = '\r' then ['\\', 'r']
  else if c = '\t' then ['\\', 't']
  else ['\\', 'u', '0', '0', hexDigit (c.toNat / 16), hexDigit (c.toNat % 16)]

def renderString (s : List Char) : List Char := '"' :: (s.flatMap escapeChar ++ ['"'])

/-- An integer, in decimal digits. -/
def renderInt (n : ℤ) : List Char :=
  if n < 0 then '-' :: Nat.toDigits 10 n.natAbs else Nat.toDigits 10 n.natAbs

section Render

variable (renderNumber : ℤ → ℤ → List Char)

mutual

@[grind =] def render : Json → List Char
  | .null => ['n', 'u', 'l', 'l']
  | .bool true => ['t', 'r', 'u', 'e']
  | .bool false => ['f', 'a', 'l', 's', 'e']
  | .number c e => renderNumber c e
  | .string s => renderString s
  | .array xs => '[' :: (renderElements xs ++ [']'])
  | .object ms => '{' :: (renderMembers ms ++ ['}'])

def renderElements : List Json → List Char
  | [] => []
  | [x] => render x
  | x :: y :: xs => render x ++ ',' :: renderElements (y :: xs)

def renderMembers : List (List Char × Json) → List Char
  | [] => []
  | [(k, x)] => renderString k ++ ':' :: render x
  | (k, x) :: m :: ms => renderString k ++ ':' :: render x ++ ',' :: renderMembers (m :: ms)

end

@[simp] theorem render_bool_true : render renderNumber (.bool true) = ['t', 'r', 'u', 'e'] := by
  rw [render]

@[simp] theorem render_bool_false :
    render renderNumber (.bool false) = ['f', 'a', 'l', 's', 'e'] := by
  rw [render]

@[simp] theorem render_number (c e : ℤ) :
    render renderNumber (.number c e) = renderNumber c e := by
  rw [render]

@[simp] theorem render_string (s : List Char) :
    render renderNumber (.string s) = renderString s := by
  rw [render]

@[simp] theorem render_array (xs : List Json) :
    render renderNumber (.array xs) = '[' :: (renderElements renderNumber xs ++ [']']) := by
  rw [render]

@[simp] theorem render_object (ms : List (List Char × Json)) :
    render renderNumber (.object ms) = '{' :: (renderMembers renderNumber ms ++ ['}']) := by
  rw [render]

end Render

end Json

/-! ### Bytes -/

/-- The bytes of a text in UTF-8. -/
def utf8Length (text : List Char) : ℕ := (text.map Char.utf8Size).sum

@[simp] theorem utf8Length_nil : utf8Length [] = 0 := rfl

@[simp] theorem utf8Length_cons (c : Char) (text : List Char) :
    utf8Length (c :: text) = c.utf8Size + utf8Length text := by
  simp [utf8Length]

@[simp] theorem utf8Length_append (s t : List Char) :
    utf8Length (s ++ t) = utf8Length s + utf8Length t := by
  simp [utf8Length]

theorem utf8Length_le_four_mul_length (text : List Char) : utf8Length text ≤ 4 * text.length := by
  induction text with
  | nil => exact Nat.le_refl 0
  | cons c rest ih =>
    have hc := Char.utf8Size_le_four c
    rw [utf8Length_cons, length_cons]
    omega

namespace Json

theorem utf8Size_hexDigit : ∀ n < 16, (hexDigit n).utf8Size = 1 := by decide

/-- An escape is at most six bytes long. -/
theorem utf8Length_escapeChar_le (c : Char) : utf8Length (escapeChar c) ≤ 6 := by
  have hc := Char.utf8Size_le_four c
  have hhigh : (hexDigit (c.toNat % 16)).utf8Size = 1 := utf8Size_hexDigit _ (by omega)
  unfold escapeChar
  split_ifs with h₁ h₂ h₃ <;> try decide
  · simp only [utf8Length_cons, utf8Length_nil]
    omega
  · have hlow : (hexDigit (c.toNat / 16)).utf8Size = 1 := utf8Size_hexDigit _ (by omega)
    simp only [utf8Length_cons, utf8Length_nil, hhigh, hlow]
    decide

theorem utf8Length_flatMap_escapeChar_le_length (s : List Char) :
    utf8Length (s.flatMap escapeChar) ≤ 6 * s.length := by
  induction s with
  | nil => exact Nat.le_refl 0
  | cons c rest ih =>
    have hc := utf8Length_escapeChar_le c
    rw [flatMap_cons, utf8Length_append, length_cons]
    omega

/-- **Escaping makes a string at most six times as long.** -/
theorem utf8Length_renderString_le (s : List Char) :
    utf8Length (renderString s) ≤ 2 + 6 * utf8Length s := by
  have hchars : s.length ≤ utf8Length s := by
    induction s with
    | nil => exact Nat.le_refl 0
    | cons c rest ih =>
      have hc := Char.utf8Size_pos c
      rw [utf8Length_cons, length_cons]
      omega
  have hescaped := utf8Length_flatMap_escapeChar_le_length s
  have hquote : '"'.utf8Size = 1 := by decide
  simp only [renderString, utf8Length_cons, utf8Length_append, utf8Length_nil, hquote]
  omega

/-- The elements of an array, and a comma for each of them. -/
theorem utf8Length_renderElements_le (renderNumber : ℤ → ℤ → List Char) (xs : List Json) :
    utf8Length (renderElements renderNumber xs) ≤
      (xs.map fun x => utf8Length (render renderNumber x) + 1).sum := by
  induction xs with
  | nil => exact Nat.le_refl 0
  | cons x rest ih =>
    cases rest with
    | nil =>
      rw [renderElements, map_cons, map_nil, sum_cons, sum_nil]
      omega
    | cons y rest =>
      have hcomma : ','.utf8Size = 1 := by decide
      rw [renderElements, utf8Length_append, utf8Length_cons, hcomma, map_cons,
        sum_cons]
      omega

/-- The decimal digits of an integer of at most twenty digits. -/
theorem utf8Length_renderInt_le {n : ℤ} (h : n.natAbs < 10 ^ 20) :
    utf8Length (renderInt n) ≤ 84 := by
  have hdigits : (Nat.toDigits 10 n.natAbs).length ≤ 20 :=
    Nat.toDigits_length 10 n.natAbs 20 (by decide) h
  have hlength : (renderInt n).length ≤ 21 := by
    unfold renderInt
    split
    · rw [length_cons]
      omega
    · omega
  have hbytes := utf8Length_le_four_mul_length (renderInt n)
  omega

end Json
