import HaskellAgent.Lib.Lists
import Mathlib.Algebra.Order.Group.Int
import Mathlib.Data.List.Infix

/-!
# JSON texts

The grammar of JSON documents over lists of characters.  The body of a string is spelled by units:
characters that stand for themselves, short escapes and escapes of four hexadecimal digits, of which
two may be needed for one character.

## Main definitions

* `StringUnit`, `StringUnit.Valid`, `StringUnit.text` — how strings are spelled.
* `decodeUnits`, `decodeString` — what a body says.
* `StringState`, `scan`, `balance` — whether a text ends inside a string, and its open brackets.
* `Derives`, `ObjectText` — the grammar.
* `whole` — the units that a length has room for.
* `Stays`, `stringBody` — the text up to the quote that closes a string.

## Main results

* `units_of_append` — a text is spelled by units in one way only.
* `decodeString_eq_some_iff` — the decoder accepts what valid units spell.
* `scan_eq_of_stays` — an odd number of trailing backslashes escapes what follows.
* `take_unitsText` — a cut body is spelled by whole units and part of an escape.
* `ObjectText.mono`, `not_objectText_of_cut` — **the text of an object ends with its bracket**.
-/

open List Option

namespace JsonText

/-! ### Strings -/

def isHexDigit (c : Char) : Bool :=
  ('0' ≤ c && c ≤ '9') || ('a' ≤ c && c ≤ 'f') || ('A' ≤ c && c ≤ 'F')

/-- The character that a short escape stands for. -/
def shortEscape : Char → Option Char
  | '"' => some '"'
  | '\\' => some '\\'
  | '/' => some '/'
  | 'b' => some (Char.ofNat 8)
  | 'f' => some (Char.ofNat 12)
  | 'n' => some '\n'
  | 'r' => some '\r'
  | 't' => some '\t'
  | _ => none

/-- A part of the body of a string. -/
inductive StringUnit
  | plain (c : Char)
  | short (c : Char)
  | hex (a b c d : Char)
  deriving DecidableEq, Repr

namespace StringUnit

def Valid : StringUnit → Prop
  | plain c => c ≠ '"' ∧ c ≠ '\\' ∧ 0x20 ≤ c.toNat
  | short c => (shortEscape c).isSome
  | hex a b c d => isHexDigit a ∧ isHexDigit b ∧ isHexDigit c ∧ isHexDigit d

instance (u : StringUnit) : Decidable u.Valid := by
  cases u <;> unfold Valid <;> infer_instance

def text : StringUnit → List Char
  | plain c => [c]
  | short c => ['\\', c]
  | hex a b c d => ['\\', 'u', a, b, c, d]

def hexValue (c : Char) : ℕ :=
  if c ≤ '9' then c.toNat - 48 else if c ≤ 'F' then c.toNat - 55 else c.toNat - 87

def hexCode (a b c d : Char) : ℕ :=
  ((hexValue a * 16 + hexValue b) * 16 + hexValue c) * 16 + hexValue d

def isSurrogate (n : ℕ) : Bool := 0xD800 ≤ n && n < 0xE000

/-- The character of a unit that needs no other. -/
def scalar : StringUnit → Option Char
  | plain c => some c
  | short c => shortEscape c
  | hex a b c d =>
      let n := hexCode a b c d
      if isSurrogate n then none else some (Char.ofNat n)

/-- The character of two units, the halves of a surrogate pair. -/
def pair : StringUnit → StringUnit → Option Char
  | hex a b c d, hex a' b' c' d' =>
      let high := hexCode a b c d
      let low := hexCode a' b' c' d'
      if 0xD800 ≤ high ∧ high < 0xDC00 ∧ 0xDC00 ≤ low ∧ low < 0xE000 then
        some (Char.ofNat (0x10000 + (high - 0xD800) * 0x400 + (low - 0xDC00)))
      else none
  | _, _ => none

end StringUnit

open StringUnit

/-- What the units say; half a surrogate pair says nothing. -/
@[grind =] def decodeUnits : List StringUnit → Option (List Char)
  | [] => some []
  | [u] => u.scalar.map ([·])
  | u :: v :: us =>
      match u.scalar with
      | some c => (decodeUnits (v :: us)).map (c :: ·)
      | none =>
          match u.pair v with
          | some c => (decodeUnits us).map (c :: ·)
          | none => none

def unitsText (us : List StringUnit) : List Char := us.flatMap text

@[simp] theorem unitsText_nil : unitsText [] = [] := rfl

@[simp] theorem unitsText_cons (u : StringUnit) (us : List StringUnit) :
    unitsText (u :: us) = u.text ++ unitsText us := rfl

def ValidUnits (us : List StringUnit) : Prop := ∀ u ∈ us, u.Valid

variable {us : List StringUnit}

variable {s : List Char} {vs : List StringUnit} {u : StringUnit} {c : Char}

theorem validUnits_cons :
    ValidUnits (u :: us) ↔ u.Valid ∧ ValidUnits us := forall_mem_cons

/-- The body of a string spells the text. -/
def StringBody (body value : List Char) : Prop :=
  ∃ us, ValidUnits us ∧ body = unitsText us ∧ decodeUnits us = some value

theorem length_text_pos (u : StringUnit) : 0 < u.text.length := by
  cases u <;> simp [text]

/-- A unit is read off the front of a text in one way. -/
theorem unit_of_append {u v : StringUnit} (hu : u.Valid) (hv : v.Valid) {s t : List Char}
    (h : u.text ++ s = v.text ++ t) : u = v ∧ s = t := by
  have hu' : (shortEscape 'u').isSome = false := rfl
  cases u with
  | plain c =>
    cases v with
    | plain d => simpa [text] using h
    | short d | hex a b c d => exact absurd (List.cons.inj h).1 hu.2.1
  | short c =>
    cases v with
    | plain d => exact absurd (List.cons.inj h).1.symm hv.2.1
    | short d => simpa [text] using h
    | hex a b c d =>
      simp only [text, cons_append, List.cons.injEq, true_and] at h
      rw [Valid, h.1, hu'] at hu
      cases hu
  | hex a b c d =>
    cases v with
    | plain d => exact absurd (List.cons.inj h).1.symm hv.2.1
    | short d =>
      simp only [text, cons_append, List.cons.injEq, true_and] at h
      rw [Valid, ← h.1, hu'] at hv
      cases hv
    | hex a' b' c' d' => simpa [text, and_assoc] using h

/-- **A text is spelled by units in one way only.** -/
theorem units_of_append (hus : ValidUnits us) (hvs : ValidUnits vs)
    {rest : List Char} (h : unitsText us ++ rest = unitsText vs) :
    ∃ ws, vs = us ++ ws ∧ rest = unitsText ws := by
  induction us generalizing vs with
  | nil => exact ⟨vs, rfl, h⟩
  | cons u us ih =>
    rw [validUnits_cons] at hus
    cases vs with
    | nil =>
      have hlength := congrArg List.length h
      have hpos := length_text_pos u
      simp only [unitsText_cons, length_append, unitsText_nil, length_nil] at hlength
      omega
    | cons v vs =>
      rw [validUnits_cons] at hvs
      rw [unitsText_cons, unitsText_cons, append_assoc] at h
      obtain ⟨rfl, htail⟩ := unit_of_append hus.1 hvs.1 h
      obtain ⟨ws, rfl, hrest⟩ := ih hus.2 hvs.2 htail
      exact ⟨ws, rfl, hrest⟩

theorem units_unique (hus : ValidUnits us) (hvs : ValidUnits vs)
    (h : unitsText us = unitsText vs) : us = vs := by
  have happend : unitsText us ++ [] = unitsText vs := by rw [List.append_nil, h]
  obtain ⟨ws, rfl, hws⟩ := units_of_append hus hvs happend
  cases ws with
  | nil => rw [List.append_nil]
  | cons w ws =>
    have hlength := congrArg List.length hws
    have hpos := length_text_pos w
    simp only [length_nil, unitsText_cons, length_append] at hlength
    omega

/-- What a body spells is determined by its units. -/
theorem stringBody_unitsText_iff (hus : ValidUnits us) {value : List Char} :
    StringBody (unitsText us) value ↔ decodeUnits us = some value := by
  constructor
  · rintro ⟨vs, hvs, htext, hdecode⟩
    rwa [units_unique hus hvs htext]
  · exact fun h => ⟨us, hus, rfl, h⟩

theorem decodeUnits_cons (h : u.scalar = some c)
    (us : List StringUnit) : decodeUnits (u :: us) = (decodeUnits us).map (c :: ·) := by
  cases us with
  | nil =>
    show u.scalar.map ([·]) = _
    rw [h]
    rfl
  | cons v us => rw [decodeUnits, h]

theorem decodeUnits_pair {u v : StringUnit} (h : u.scalar = none)
    (hpair : u.pair v = some c) (us : List StringUnit) :
    decodeUnits (u :: v :: us) = (decodeUnits us).map (c :: ·) := by
  rw [decodeUnits, h]
  dsimp only
  rw [hpair]

/-- **Decoding goes on** behind units that say something. -/
theorem decodeUnits_append {value : List Char} (h : decodeUnits us = some value)
    (vs : List StringUnit) : decodeUnits (us ++ vs) = (decodeUnits vs).map (value ++ ·) := by
  induction us using decodeUnits.induct generalizing value with
  | case1 =>
    cases h
    simp
  | case2 u =>
    obtain ⟨c, hc, rfl⟩ := map_eq_some_iff.mp h
    rw [singleton_append, decodeUnits_cons hc]
    rfl
  | case3 u v us c hc ih =>
    rw [decodeUnits_cons hc] at h
    obtain ⟨rest, hrest, rfl⟩ := map_eq_some_iff.mp h
    rw [cons_append, decodeUnits_cons hc, ih hrest, Option.map_map]
    rfl
  | case4 u v us hscalar c hpair ih =>
    rw [decodeUnits_pair hscalar hpair] at h
    obtain ⟨rest, hrest, rfl⟩ := map_eq_some_iff.mp h
    rw [cons_append, cons_append, decodeUnits_pair hscalar hpair, ih hrest,
      Option.map_map]
    rfl
  | case5 u v us hscalar hpair =>
    rw [decodeUnits, hscalar] at h
    dsimp only at h
    rw [hpair] at h
    cases h

/-- The last unit is the first half of a surrogate pair. -/
def EndsInHalfPair (us : List StringUnit) : Prop :=
  ∃ vs u, us = vs ++ [u] ∧ (decodeUnits vs).isSome ∧ u.scalar = none

theorem decodeUnits_of_endsInHalfPair (h : EndsInHalfPair us) : decodeUnits us = none := by
  obtain ⟨vs, u, rfl, hvs, hu⟩ := h
  obtain ⟨value, hvalue⟩ := isSome_iff_exists.mp hvs
  rw [decodeUnits_append hvalue, decodeUnits, hu]
  rfl

/-- **Cut units** say something, or end in half a surrogate pair. -/
theorem decodeUnits_of_cut (hvs : (decodeUnits vs).isSome) (h : us <+: vs) :
    (decodeUnits us).isSome ∨ EndsInHalfPair us := by
  induction vs using decodeUnits.induct generalizing us with
  | case1 =>
    rw [prefix_nil.mp h]
    exact .inl rfl
  | case2 u =>
    rcases prefix_concat_iff.mp (show us <+: [] ++ [u] from h) with rfl | h
    · exact .inl hvs
    · rw [prefix_nil.mp h]
      exact .inl rfl
  | case3 u v vs c hc ih =>
    cases us with
    | nil => exact .inl rfl
    | cons w us =>
      obtain ⟨rfl, htail⟩ := cons_prefix_cons.mp h
      rw [decodeUnits_cons hc, isSome_map] at hvs
      rw [decodeUnits_cons hc, isSome_map]
      refine (ih hvs htail).imp_right ?_
      rintro ⟨ws, u', rfl, hws, hu'⟩
      exact ⟨w :: ws, u', rfl, by rwa [decodeUnits_cons hc, isSome_map], hu'⟩
  | case4 u v vs hscalar c hpair ih =>
    rcases us with _ | ⟨w, _ | ⟨x, us⟩⟩
    · exact .inl rfl
    · obtain ⟨rfl, -⟩ := cons_prefix_cons.mp h
      exact .inr ⟨[], w, rfl, rfl, hscalar⟩
    · obtain ⟨rfl, hnext⟩ := cons_prefix_cons.mp h
      obtain ⟨rfl, htail⟩ := cons_prefix_cons.mp hnext
      rw [decodeUnits_pair hscalar hpair, isSome_map] at hvs
      rw [decodeUnits_pair hscalar hpair, isSome_map]
      refine (ih hvs htail).imp_right ?_
      rintro ⟨ws, u', rfl, hws, hu'⟩
      exact ⟨w :: x :: ws, u', rfl,
        by rwa [decodeUnits_pair hscalar hpair, isSome_map], hu'⟩
  | case5 u v vs hscalar hpair =>
    rw [decodeUnits, hscalar] at hvs
    dsimp only at hvs
    rw [hpair] at hvs
    cases hvs

/-! ### A decoder -/

@[grind =] def parseUnits : List Char → Option (List StringUnit)
  | [] => some []
  | ['\\'] => none
  | '\\' :: 'u' :: a :: b :: c :: d :: rest =>
      if isHexDigit a && isHexDigit b && isHexDigit c && isHexDigit d then
        (parseUnits rest).map (.hex a b c d :: ·)
      else none
  | '\\' :: c :: rest =>
      if (shortEscape c).isSome then (parseUnits rest).map (.short c :: ·) else none
  | c :: rest =>
      if c = '"' ∨ c.toNat < 0x20 then none else (parseUnits rest).map (.plain c :: ·)

def decodeString (body : List Char) : Option (List Char) := (parseUnits body).bind decodeUnits

theorem parseUnits_unitsText (h : ValidUnits us) : parseUnits (unitsText us) = some us := by
  induction us with
  | nil => rfl
  | cons u us ih =>
    rw [validUnits_cons] at h
    rw [unitsText_cons]
    cases u with
    | plain c =>
      obtain ⟨hquote, hslash, hcontrol⟩ := h.1
      have hif : ¬ (c = '"' ∨ c.toNat < 0x20) := by
        rintro (hc | hc)
        · exact hquote hc
        · omega
      rw [text, singleton_append, parseUnits, if_neg hif, ih h.2]
      · rfl
      all_goals simp_all
    | short c =>
      have hc : c ≠ 'u' := by
        rintro rfl
        cases h.1
      have hshort : (shortEscape c).isSome = true := h.1
      rw [text, cons_append, singleton_append, parseUnits, if_pos hshort, ih h.2]
      · rfl
      all_goals simp_all
    | hex a b c d =>
      obtain ⟨ha, hb, hc, hd⟩ := h.1
      simp only [text, cons_append, nil_append, parseUnits, ha, hb, hc, hd, Bool.and_self,
        if_true, ih h.2, map_some]

theorem parseUnits_eq_some {body : List Char} (h : parseUnits body = some us) :
    ValidUnits us ∧ body = unitsText us := by
  induction body using parseUnits.induct generalizing us with
  | case1 =>
    cases h
    exact ⟨fun _ hu => (by cases hu), rfl⟩
  | case2 => cases h
  | case3 a b c d rest hhex ih =>
    rw [parseUnits, if_pos hhex] at h
    obtain ⟨vs, hvs, rfl⟩ := map_eq_some_iff.mp h
    obtain ⟨hvalid, rfl⟩ := ih hvs
    simp only [Bool.and_eq_true] at hhex
    exact ⟨validUnits_cons.mpr ⟨⟨hhex.1.1.1, hhex.1.1.2, hhex.1.2, hhex.2⟩, hvalid⟩, rfl⟩
  | case4 a b c d rest hhex =>
    rw [parseUnits, if_neg hhex] at h
    cases h
  | case5 c rest hnotHex hshort ih =>
    rw [parseUnits, if_pos hshort] at h
    · obtain ⟨vs, hvs, rfl⟩ := map_eq_some_iff.mp h
      obtain ⟨hvalid, rfl⟩ := ih hvs
      exact ⟨validUnits_cons.mpr ⟨hshort, hvalid⟩, rfl⟩
    · exact hnotHex
  | case6 c rest hnotHex hshort =>
    rw [parseUnits, if_neg hshort] at h
    · cases h
    · exact hnotHex
  | case7 c rest hnotSlash hnotHex hnotShort hbad =>
    rw [parseUnits, if_pos hbad] at h
    · cases h
    all_goals assumption
  | case8 c rest hnotSlash hnotHex hnotShort hgood ih =>
    rw [parseUnits, if_neg hgood] at h
    · obtain ⟨vs, hvs, rfl⟩ := map_eq_some_iff.mp h
      obtain ⟨hvalid, rfl⟩ := ih hvs
      have hslash : c ≠ '\\' := by
        rintro rfl
        cases hrest : unitsText vs with
        | nil => exact hnotSlash rfl hrest
        | cons d ds => exact hnotShort d ds rfl hrest
      rw [not_or, not_lt] at hgood
      exact ⟨validUnits_cons.mpr ⟨⟨hgood.1, hslash, hgood.2⟩, hvalid⟩, rfl⟩
    all_goals assumption

/-- **The decoder accepts what valid units spell.** -/
theorem decodeString_eq_some_iff {body value : List Char} :
    decodeString body = some value ↔ StringBody body value := by
  rw [decodeString, bind_eq_some_iff]
  constructor
  · rintro ⟨us, hparse, hdecode⟩
    obtain ⟨hvalid, hbody⟩ := parseUnits_eq_some hparse
    exact ⟨us, hvalid, hbody, hdecode⟩
  · rintro ⟨us, hvalid, rfl, hdecode⟩
    exact ⟨us, parseUnits_unitsText hvalid, hdecode⟩

/-! ### Cut strings -/

/-- The units that `n` characters have room for. -/
@[grind =] def whole : ℕ → List StringUnit → List StringUnit
  | _, [] => []
  | n, u :: us => if u.text.length ≤ n then u :: whole (n - u.text.length) us else []

theorem whole_isPrefix (n : ℕ) (us : List StringUnit) : whole n us <+: us := by
  induction us generalizing n with
  | nil => exact prefix_rfl
  | cons u us ih =>
    rw [whole]
    split
    · exact (cons_prefix_cons).mpr ⟨rfl, ih _⟩
    · exact nil_prefix

theorem whole_mono {n m : ℕ} (h : n ≤ m) (us : List StringUnit) : whole n us <+: whole m us := by
  induction us generalizing n m with
  | nil => exact prefix_rfl
  | cons u us ih =>
    rw [whole, whole]
    split
    · next hn =>
      rw [if_pos (hn.trans h)]
      exact (cons_prefix_cons).mpr ⟨rfl, ih (by omega)⟩
    · exact nil_prefix

theorem ValidUnits.whole (h : ValidUnits us) (n : ℕ) :
    ValidUnits (whole n us) := fun u hu => h u ((whole_isPrefix n us).subset hu)

/-- The part of an escape that a cut leaves. -/
inductive CutEscape : List Char → Prop
  | none : CutEscape []
  | slash : CutEscape ['\\']
  | digits (ds : List Char) (hlength : ds.length < 4) (hdigits : ∀ c ∈ ds, isHexDigit c) :
      CutEscape ('\\' :: 'u' :: ds)

theorem cutEscape_take (hu : u.Valid) {n : ℕ} (h : n < u.text.length) :
    CutEscape (u.text.take n) := by
  cases u with
  | plain c =>
    obtain rfl : n = 0 := by simpa [text] using h
    exact .none
  | short c =>
    obtain rfl | rfl : n = 0 ∨ n = 1 := by
      simp only [text, length_cons, length_nil] at h
      omega
    · exact .none
    · exact .slash
  | hex a b c d =>
    obtain ⟨ha, hb, hc, hd⟩ := hu
    match n, h with
    | 0, _ => exact .none
    | 1, _ => exact .slash
    | n + 2, h =>
      refine .digits ([a, b, c, d].take n) ?_ fun x hx => ?_
      · simp only [text, length_cons, length_nil] at h
        simp only [length_take, length_cons, length_nil]
        omega
      · have hx := mem_of_mem_take hx
        simp only [mem_cons, not_mem_nil, or_false] at hx
        rcases hx with rfl | rfl | rfl | rfl
        all_goals assumption

/-- **A cut body** is spelled by whole units and part of an escape. -/
theorem take_unitsText (h : ValidUnits us) (n : ℕ) :
    ∃ part, (unitsText us).take n = unitsText (whole n us) ++ part ∧ CutEscape part := by
  induction us generalizing n with
  | nil => exact ⟨[], by simp [whole], .none⟩
  | cons u us ih =>
    rw [validUnits_cons] at h
    rw [unitsText_cons, whole]
    split
    · next hn =>
      obtain ⟨part, htake, hpart⟩ := ih h.2 (n - u.text.length)
      refine ⟨part, ?_, hpart⟩
      rw [take_append, take_of_length_le hn, htake, unitsText_cons, append_assoc]
    · next hn =>
      refine ⟨u.text.take n, ?_, cutEscape_take h.1 (not_le.mp hn)⟩
      rw [take_append_of_le_length (not_le.mp hn).le, unitsText_nil, nil_append]

/-! ### Inside and outside of strings -/

inductive StringState
  | outside
  | inside
  /-- Inside, after a backslash. -/
  | escaped
  deriving DecidableEq, Repr

@[grind =] def StringState.step : StringState → Char → StringState
  | outside, c => if c = '"' then inside else outside
  | inside, c => if c = '"' then outside else if c = '\\' then escaped else inside
  | escaped, _ => inside

@[grind =] def scan (state : StringState) (t : List Char) : StringState := t.foldl StringState.step state

@[simp] theorem scan_nil (state : StringState) : scan state [] = state := rfl

@[simp] theorem scan_cons (state : StringState) (c : Char) (t : List Char) :
    scan state (c :: t) = scan (state.step c) t := rfl

@[simp] theorem scan_append (state : StringState) (s t : List Char) :
    scan state (s ++ t) = scan (scan state s) t := foldl_append ..

theorem step_inside_of_ne (hquote : c ≠ '"') (hslash : c ≠ '\\') :
    StringState.inside.step c = .inside := by
  rw [StringState.step, if_neg hquote, if_neg hslash]

theorem isHexDigit_ne {c d : Char} (h : isHexDigit c) (hd : isHexDigit d = false) : c ≠ d := by
  rintro rfl
  rw [h] at hd
  cases hd

theorem scan_hexDigits {ds : List Char} (h : ∀ c ∈ ds, isHexDigit c) :
    scan .inside ds = .inside := by
  induction ds with
  | nil => rfl
  | cons c ds ih =>
    rw [forall_mem_cons] at h
    rw [scan_cons, step_inside_of_ne (isHexDigit_ne h.1 rfl) (isHexDigit_ne h.1 rfl), ih h.2]

theorem scan_text (h : u.Valid) : scan .inside u.text = .inside := by
  cases u with
  | plain c => exact step_inside_of_ne h.1 h.2.1
  | short c => rfl
  | hex a b c d =>
    obtain ⟨ha, hb, hc, hd⟩ := h
    have hdigits : ∀ x ∈ [a, b, c, d], isHexDigit x := by simp [ha, hb, hc, hd]
    show scan .inside [a, b, c, d] = .inside
    exact scan_hexDigits hdigits

theorem scan_unitsText (h : ValidUnits us) : scan .inside (unitsText us) = .inside := by
  induction us with
  | nil => rfl
  | cons u us ih =>
    rw [validUnits_cons] at h
    rw [unitsText_cons, scan_append, scan_text h.1, ih h.2]

/-- A cut body ends inside the string. -/
theorem scan_take_unitsText (h : ValidUnits us) (n : ℕ) :
    scan .inside ((unitsText us).take n) ≠ .outside := by
  obtain ⟨part, htake, hpart⟩ := take_unitsText h n
  rw [htake, scan_append, scan_unitsText (h.whole n)]
  cases hpart with
  | none => simp
  | slash => decide
  | digits ds hlength hdigits =>
    show scan .inside ds ≠ _
    rw [scan_hexDigits hdigits]
    simp

/-- The text does not leave the string it begins in. -/
def Stays (t : List Char) : Prop := ∀ s, s <+: t → scan .inside s ≠ .outside

variable {t : List Char}

theorem Stays.mono (h : Stays t) (hs : s <+: t) : Stays s :=
  fun r hr => h r (hr.trans hs)

theorem stays_of_not_mem (h : '"' ∉ t) : Stays t := by
  have hscan : ∀ s : List Char, '"' ∉ s → ∀ state, state ≠ .outside → scan state s ≠ .outside := by
    intro s
    induction s with
    | nil => exact fun _ state hstate => hstate
    | cons c s ih =>
      intro hs state hstate
      rw [mem_cons, not_or] at hs
      refine ih hs.2 _ ?_
      cases state with
      | outside => exact absurd rfl hstate
      | inside =>
        rw [StringState.step, if_neg (Ne.symm hs.1)]
        split <;> simp
      | escaped => simp [StringState.step]
  exact fun s hs => hscan s (fun hmem => h (hs.subset hmem)) _ (by simp)

theorem stays_unitsText (h : ValidUnits us) : Stays (unitsText us) := by
  intro s hs
  rw [prefix_iff_eq_take.mp hs]
  exact scan_take_unitsText h _

/-- The text up to the quote that closes the string. -/
@[grind =] def stringBody (state : StringState) : List Char → List Char
  | [] => []
  | c :: t => if state.step c = .outside then [] else c :: stringBody (state.step c) t

theorem stringBody_append (h : Stays s) (t : List Char) :
    stringBody .inside (s ++ t) = s ++ stringBody (scan .inside s) t := by
  have hbody : ∀ (s : List Char) (state : StringState),
      (∀ r, r <+: s → scan state r ≠ .outside) →
        stringBody state (s ++ t) = s ++ stringBody (scan state s) t := by
    intro s
    induction s with
    | nil => exact fun _ _ => rfl
    | cons c s ih =>
      intro state hstate
      have hc : state.step c ≠ .outside := hstate [c] (cons_prefix_cons.mpr ⟨rfl,
        nil_prefix⟩)
      rw [cons_append, stringBody, if_neg hc, ih (state.step c) fun r hr =>
        hstate (c :: r) (cons_prefix_cons.mpr ⟨rfl, hr⟩)]
      rfl
  exact hbody s _ h

theorem stringBody_of_stays (h : Stays t) : stringBody .inside t = t := by
  have hbody := stringBody_append h []
  rwa [List.append_nil, stringBody, List.append_nil] at hbody

theorem stays_of_stringBody (h : stringBody .inside t = t) : Stays t := by
  have hscan : ∀ (t : List Char) (state : StringState), stringBody state t = t →
      state ≠ .outside → ∀ s, s <+: t → scan state s ≠ .outside := by
    intro t
    induction t with
    | nil =>
      intro state _ hstate s hs
      rwa [prefix_nil.mp hs]
    | cons c t ih =>
      intro state hbody hstate s hs
      rw [stringBody] at hbody
      split at hbody
      · cases hbody
      · next hstep =>
        cases s with
        | nil => exact hstate
        | cons d s =>
          obtain ⟨rfl, hs'⟩ := cons_prefix_cons.mp hs
          exact ih _ (List.cons.inj hbody).2 hstep s hs'
  exact fun s hs => hscan t _ h (by simp) s hs

/-- What follows the closing quote does not matter. -/
theorem stringBody_closed (s t : List Char) {state : StringState}
    (h : stringBody state s ≠ s) : stringBody state (s ++ t) = stringBody state s := by
  induction s generalizing state with
  | nil => exact absurd rfl h
  | cons c s ih =>
    rw [cons_append, stringBody, stringBody]
    split
    · rfl
    · next hc =>
      rw [stringBody, if_neg hc] at h
      rw [ih fun heq => h (congrArg (c :: ·) heq)]

/-- The backslashes at the end of a text. -/
def trailingSlashes (t : List Char) : List Char := (t.reverse.takeWhile (· = '\\')).reverse

theorem trailingSlashes_concat (t : List Char) (c : Char) :
    trailingSlashes (t ++ [c]) = if c = '\\' then trailingSlashes t ++ [c] else [] := by
  unfold trailingSlashes
  rw [reverse_append, reverse_singleton, singleton_append, takeWhile_cons]
  by_cases hc : c = '\\'
  · simp [hc]
  · simp [hc]

/-- **An odd number of trailing backslashes** escapes what follows. -/
theorem scan_eq_of_stays (h : Stays t) :
    scan .inside t = if (trailingSlashes t).length % 2 = 1 then .escaped else .inside := by
  induction t using List.reverseRecOn with
  | nil => rfl
  | append_singleton t c ih =>
    have hlast := h (t ++ [c]) prefix_rfl
    rw [scan_append, ih (h.mono (prefix_append t [c]))] at hlast ⊢
    rw [trailingSlashes_concat]
    by_cases hodd : (trailingSlashes t).length % 2 = 1
    · rw [if_pos hodd]
      -- the character is escaped
      have heven : ¬ ((if c = '\\' then trailingSlashes t ++ [c] else []).length % 2 = 1) := by
        split
        · rw [length_append, length_singleton]
          omega
        · simp
      rw [if_neg heven]
      rfl
    · rw [if_neg hodd] at hlast ⊢
      by_cases hc : c = '\\'
      · subst hc
        have hodd' : (if '\\' = '\\' then trailingSlashes t ++ ['\\'] else []).length % 2 = 1 := by
          rw [if_pos rfl, length_append, length_singleton]
          omega
        rw [if_pos hodd']
        rfl
      · have hquote : c ≠ '"' := by
          rintro rfl
          exact hlast rfl
        rw [if_neg hc, if_neg (by simp)]
        exact step_inside_of_ne hquote hc

/-- What a character does to the number of open brackets. -/
def StringState.delta : StringState → Char → ℤ
  | outside, c => if c = '{' ∨ c = '[' then 1 else if c = '}' ∨ c = ']' then -1 else 0
  | _, _ => 0

/-- The brackets that a text opens and does not close. -/
@[grind =] def balance : StringState → List Char → ℤ
  | _, [] => 0
  | state, c :: t => state.delta c + balance (state.step c) t

theorem balance_append (state : StringState) (s t : List Char) :
    balance state (s ++ t) = balance state s + balance (scan state s) t := by
  induction s generalizing state with
  | nil => rw [nil_append, balance, zero_add, scan_nil]
  | cons c s ih => rw [cons_append, balance, balance, ih, scan_cons, add_assoc]

/-- A text that closes just the strings and brackets that it opens. -/
structure Level (t : List Char) : Prop where
  scan : scan .outside t = .outside
  balance : balance .outside t = 0
  nonneg : ∀ s, s <+: t → 0 ≤ JsonText.balance .outside s

theorem Level.append (hs : Level s) (ht : Level t) : Level (s ++ t) where
  scan := by rw [scan_append, hs.scan, ht.scan]
  balance := by rw [balance_append, hs.scan, hs.balance, ht.balance, add_zero]
  nonneg := by
    intro r hr
    rcases List.prefix_append_cases hr with hr | ⟨r, rfl, hr'⟩
    · exact hs.nonneg r hr
    · rw [balance_append, hs.scan, hs.balance, zero_add]
      exact ht.nonneg r hr'

theorem Level.cons (hstep : StringState.outside.step c = .outside)
    (hdelta : StringState.outside.delta c = 0) (ht : Level t) : Level (c :: t) where
  scan := by rw [scan_cons, hstep, ht.scan]
  balance := by rw [JsonText.balance, hstep, hdelta, ht.balance, add_zero]
  nonneg := by
    intro r hr
    cases r with
    | nil => exact le_rfl
    | cons d r =>
      obtain ⟨rfl, hr'⟩ := cons_prefix_cons.mp hr
      rw [JsonText.balance, hstep, hdelta, zero_add]
      exact ht.nonneg r hr'

theorem level_nil : Level [] where
  scan := rfl
  balance := rfl
  nonneg := by
    intro s hs
    rw [prefix_nil.mp hs]
    exact le_rfl

/-- Characters outside of strings that open and close nothing. -/
def isFlat (c : Char) : Bool := c ≠ '"' && c ≠ '{' && c ≠ '[' && c ≠ '}' && c ≠ ']'

theorem level_of_flat (h : ∀ c ∈ t, isFlat c) : Level t := by
  induction t with
  | nil => exact level_nil
  | cons c t ih =>
    rw [forall_mem_cons] at h
    have hc := h.1
    simp only [isFlat, Bool.and_eq_true, decide_eq_true_eq] at hc
    refine .cons ?_ ?_ (ih h.2)
    · rw [StringState.step, if_neg hc.1.1.1.1]
    · rw [StringState.delta, if_neg (by simp [hc.1.1.1.2, hc.1.1.2]),
        if_neg (by simp [hc.1.2, hc.2])]

/-- Inside of strings brackets do not count. -/
theorem balance_unitsText (h : ValidUnits us) (hs : s <+: unitsText us) :
    balance .inside s = 0 := by
  -- as long as no quote closes the string, the state is not outside
  have hzero : ∀ (s : List Char) (state : StringState),
      (∀ r, r <+: s → scan state r ≠ .outside) → balance state s = 0 := by
    intro s
    induction s with
    | nil => exact fun _ _ => rfl
    | cons c s ih =>
      intro state hstate
      have hdelta : state.delta c = 0 := by
        cases state with
        | outside => exact absurd rfl (hstate [] nil_prefix)
        | inside | escaped => rfl
      rw [balance, hdelta, zero_add]
      refine ih _ fun r hr => ?_
      exact hstate (c :: r) (cons_prefix_cons.mpr ⟨rfl, hr⟩)
  refine hzero s _ fun r hr => ?_
  rw [prefix_iff_eq_take.mp (hr.trans hs)]
  exact scan_take_unitsText h _

/-! ### The grammar -/

def IsSpace (t : List Char) : Prop := ∀ c ∈ t, c = ' ' ∨ c = '\t' ∨ c = '\n' ∨ c = '\r'

def StringText (t : List Char) : Prop := ∃ us, ValidUnits us ∧ t = '"' :: (unitsText us ++ ['"'])

def Digits (t : List Char) : Prop := t ≠ [] ∧ ∀ c ∈ t, c.isDigit

/-- A number: sign, digits without a leading zero, fraction and exponent. -/
def NumberText (t : List Char) : Prop :=
  ∃ sign digits fraction exponent, t = sign ++ digits ++ fraction ++ exponent ∧
    (sign = [] ∨ sign = ['-']) ∧
    (Digits digits ∧ (digits.head? = some '0' → digits = ['0'])) ∧
    (fraction = [] ∨ ∃ ds, Digits ds ∧ fraction = '.' :: ds) ∧
    (exponent = [] ∨ ∃ e esign ds, (e = 'e' ∨ e = 'E') ∧
      (esign = [] ∨ esign = ['+'] ∨ esign = ['-']) ∧ Digits ds ∧ exponent = e :: (esign ++ ds))

def WordText (t : List Char) : Prop :=
  t = "true".toList ∨ t = "false".toList ∨ t = "null".toList

/-- The start of a member of an object: its key and a colon. -/
def KeyText (t : List Char) : Prop :=
  ∃ before key after before', IsSpace before ∧ StringText key ∧ IsSpace after ∧ IsSpace before' ∧
    t = before ++ key ++ after ++ ':' :: before'

inductive Part
  | value
  /-- One or more elements of an array. -/
  | elements
  /-- One or more members of an object. -/
  | members

/-- The texts of values, elements and members. -/
inductive Derives : Part → List Char → Prop
  | string {t : List Char} : StringText t → Derives .value t
  | number {t : List Char} : NumberText t → Derives .value t
  | word {t : List Char} : WordText t → Derives .value t
  | emptyArray {space : List Char} : IsSpace space → Derives .value ('[' :: (space ++ [']']))
  | array {t : List Char} : Derives .elements t → Derives .value ('[' :: (t ++ [']']))
  | emptyObject {space : List Char} : IsSpace space → Derives .value ('{' :: (space ++ ['}']))
  | object {t : List Char} : Derives .members t → Derives .value ('{' :: (t ++ ['}']))
  | element {before t after : List Char} : IsSpace before → Derives .value t → IsSpace after →
      Derives .elements (before ++ t ++ after)
  | elements {before t after rest : List Char} : IsSpace before → Derives .value t →
      IsSpace after → Derives .elements rest →
      Derives .elements (before ++ t ++ after ++ ',' :: rest)
  | member {key t after : List Char} : KeyText key → Derives .value t → IsSpace after →
      Derives .members (key ++ t ++ after)
  | members {key t after rest : List Char} : KeyText key → Derives .value t → IsSpace after →
      Derives .members rest → Derives .members (key ++ t ++ after ++ ',' :: rest)

def ObjectText (t : List Char) : Prop :=
  ∃ before inner after, IsSpace before ∧ (IsSpace inner ∨ Derives .members inner) ∧
    IsSpace after ∧ t = before ++ '{' :: (inner ++ '}' :: after)

theorem IsSpace.level (h : IsSpace t) : Level t := by
  refine level_of_flat fun c hc => ?_
  rcases h c hc with rfl | rfl | rfl | rfl
  all_goals rfl

theorem StringText.level (h : StringText t) : Level t := by
  obtain ⟨us, hus, rfl⟩ := h
  have hbody : ∀ s, s <+: unitsText us → balance .outside ('"' :: s) = 0 := by
    intro s hs
    show 0 + balance .inside s = 0
    rw [balance_unitsText hus hs, add_zero]
  have hclosed : ∀ s, s <+: unitsText us ++ ['"'] → balance .outside ('"' :: s) = 0 := by
    intro s hs
    rcases prefix_concat_iff.mp hs with rfl | hs
    · rw [← cons_append, balance_append, hbody _ prefix_rfl, scan_cons]
      show 0 + balance (scan .inside (unitsText us)) _ = 0
      rw [scan_unitsText hus]
      rfl
    · exact hbody s hs
  refine ⟨?_, hclosed _ prefix_rfl, fun s hs => ?_⟩
  · show scan .inside (unitsText us ++ ['"']) = .outside
    rw [scan_append, scan_unitsText hus]
    rfl
  · cases s with
    | nil => exact le_rfl
    | cons c s =>
      obtain ⟨rfl, hs'⟩ := cons_prefix_cons.mp hs
      exact (hclosed s hs').ge

theorem isFlat_of_isDigit (h : c.isDigit) : isFlat c := by
  have hne : ∀ d : Char, d.isDigit = false → c ≠ d := by
    rintro d hd rfl
    rw [h] at hd
    cases hd
  simp only [isFlat, Bool.and_eq_true, decide_eq_true_eq]
  exact ⟨⟨⟨⟨hne _ rfl, hne _ rfl⟩, hne _ rfl⟩, hne _ rfl⟩, hne _ rfl⟩

theorem Digits.level (h : Digits t) : Level t :=
  level_of_flat fun c hc => isFlat_of_isDigit (h.2 c hc)

theorem level_singleton (h : isFlat c) : Level [c] :=
  level_of_flat fun d hd => by rwa [mem_singleton.mp hd]

theorem NumberText.level (h : NumberText t) : Level t := by
  obtain ⟨sign, digits, fraction, exponent, rfl, hsign, hdigits, hfraction, hexponent⟩ := h
  have hsign : Level sign := by
    rcases hsign with rfl | rfl
    · exact level_nil
    · exact level_singleton rfl
  have hfraction : Level fraction := by
    rcases hfraction with rfl | ⟨ds, hds, rfl⟩
    · exact level_nil
    · exact .cons rfl rfl hds.level
  have hexponent : Level exponent := by
    rcases hexponent with rfl | ⟨e, esign, ds, he, hesign, hds, rfl⟩
    · exact level_nil
    · have hrest : Level (esign ++ ds) := by
        rcases hesign with rfl | rfl | rfl
        · exact hds.level
        · exact .cons rfl rfl hds.level
        · exact .cons rfl rfl hds.level
      rcases he with rfl | rfl
      all_goals exact .cons rfl rfl hrest
  exact ((hsign.append hdigits.1.level).append hfraction).append hexponent

theorem WordText.level (h : WordText t) : Level t := by
  have hflat : t.all isFlat = true := by
    rcases h with rfl | rfl | rfl
    all_goals rfl
  exact level_of_flat (List.all_eq_true.mp hflat)

theorem KeyText.level (h : KeyText t) : Level t := by
  obtain ⟨before, key, after, before', hbefore, hkey, hafter, hbefore', rfl⟩ := h
  exact ((hbefore.level.append hkey.level).append hafter.level).append
    (.cons rfl rfl hbefore'.level)

/-- A level text in brackets is level. -/
theorem Level.bracket (h : Level t) {opening closing : Char}
    (hopening : opening = '{' ∨ opening = '[') (hclosing : closing = '}' ∨ closing = ']') :
    Level (opening :: (t ++ [closing])) := by
  have hopen : StringState.outside.step opening = .outside ∧
      StringState.outside.delta opening = 1 := by
    rcases hopening with rfl | rfl
    all_goals exact ⟨rfl, rfl⟩
  have hclose : StringState.outside.step closing = .outside ∧
      StringState.outside.delta closing = -1 := by
    rcases hclosing with rfl | rfl
    all_goals exact ⟨rfl, rfl⟩
  have hbalance : JsonText.balance .outside (opening :: (t ++ [closing])) = 0 := by
    rw [JsonText.balance, hopen.1, hopen.2, balance_append, h.balance, h.scan, JsonText.balance,
      JsonText.balance, hclose.2]
    rfl
  refine ⟨?_, hbalance, fun s hs => ?_⟩
  · rw [scan_cons, hopen.1, scan_append, h.scan, scan_cons, hclose.1, scan_nil]
  · cases s with
    | nil => exact le_rfl
    | cons c s =>
      obtain ⟨rfl, hs'⟩ := cons_prefix_cons.mp hs
      rcases prefix_concat_iff.mp hs' with rfl | hs'
      · exact hbalance.ge
      · rw [JsonText.balance, hopen.1, hopen.2]
        have hnonneg := h.nonneg s hs'
        omega

/-- **Values, elements and members are level.** -/
theorem Derives.level {part : Part} (h : Derives part t) : Level t := by
  have hcomma : ∀ {rest : List Char}, Level rest → Level (',' :: rest) := Level.cons rfl rfl
  induction h with
  | string h | number h | word h => exact h.level
  | emptyArray h => exact h.level.bracket (.inr rfl) (.inr rfl)
  | array h ih => exact ih.bracket (.inr rfl) (.inr rfl)
  | emptyObject h => exact h.level.bracket (.inl rfl) (.inl rfl)
  | object h ih => exact ih.bracket (.inl rfl) (.inl rfl)
  | element hbefore h hafter ih => exact (hbefore.level.append ih).append hafter.level
  | elements hbefore h hafter hrest ih ihrest =>
    exact ((hbefore.level.append ih).append hafter.level).append (hcomma ihrest)
  | member hkey h hafter ih => exact (hkey.level.append ih).append hafter.level
  | members hkey h hafter hrest ih ihrest =>
    exact ((hkey.level.append ih).append hafter.level).append (hcomma ihrest)

theorem ObjectText.level (h : ObjectText t) : Level t := by
  obtain ⟨before, inner, after, hbefore, hinner, hafter, rfl⟩ := h
  have hinner : Level inner := by
    rcases hinner with hinner | hinner
    · exact hinner.level
    · exact hinner.level
  have hobject := (hbefore.level.append (hinner.bracket (.inl rfl) (.inl rfl))).append hafter.level
  rwa [append_assoc, cons_append, append_assoc, singleton_append] at hobject

/-- **A cut before the last bracket** is not the text of an object. -/
theorem not_objectText_of_cut {before inner s : List Char} (hbefore : IsSpace before)
    (hinner : Level inner) (hs : s <+: before ++ '{' :: inner) : ¬ ObjectText s := by
  intro h
  rcases List.prefix_append_cases hs with hs | ⟨r, rfl, hr⟩
  · -- a text of spaces has no bracket
    obtain ⟨before', inner', after', -, -, -, rfl⟩ := h
    have hmem := hs.subset (show '{' ∈ before' ++ '{' :: (inner' ++ '}' :: after') by simp)
    rcases hbefore _ hmem with hc | hc | hc | hc
    all_goals cases hc
  · cases r with
    | nil =>
      obtain ⟨before', inner', after', -, -, -, heq⟩ := h
      have hmem : '{' ∈ before ++ [] := by simp [heq]
      rw [List.append_nil] at hmem
      rcases hbefore _ hmem with hc | hc | hc | hc
      all_goals cases hc
    | cons c r =>
      obtain ⟨rfl, hr'⟩ := cons_prefix_cons.mp hr
      have hbalance := h.level.balance
      rw [balance_append, hbefore.level.balance, hbefore.level.scan, zero_add] at hbalance
      have hnonneg := hinner.nonneg r hr'
      have hone : balance .outside ('{' :: r) = 1 + balance .outside r := rfl
      omega

/-- **Behind the last bracket** only spaces are cut. -/
theorem ObjectText.mono {s p : List Char} (ht : ObjectText t) (hs : ObjectText s) (hsp : s <+: p)
    (hpt : p <+: t) : ObjectText p := by
  obtain ⟨before, inner, after, hbefore, hinner, hafter, rfl⟩ := ht
  have hlevel : Level inner := by
    rcases hinner with hinner | hinner
    · exact hinner.level
    · exact hinner.level
  have hsplit : before ++ '{' :: (inner ++ '}' :: after) =
      (before ++ '{' :: inner) ++ '}' :: after := by simp
  rw [hsplit] at hpt
  rcases List.prefix_append_cases hpt with hp | ⟨r, rfl, hr⟩
  · exact absurd hs (not_objectText_of_cut hbefore hlevel (hsp.trans hp))
  · cases r with
    | nil =>
      rw [List.append_nil] at hsp
      exact absurd hs (not_objectText_of_cut hbefore hlevel hsp)
    | cons c r =>
      obtain ⟨rfl, hr'⟩ := cons_prefix_cons.mp hr
      refine ⟨before, inner, r, hbefore, hinner, fun d hd => hafter d (hr'.subset hd), ?_⟩
      simp

theorem Derives.append_members (hs : Derives .members s) (ht : Derives .members t) :
    Derives .members (s ++ ',' :: t) := by
  generalize hpart : Part.members = part at hs
  induction hs with
  | member hkey h hafter => exact .members hkey h hafter ht
  | @members key value after rest hkey h hafter hrest ih ihrest =>
    have heq : key ++ value ++ after ++ ',' :: rest ++ ',' :: t =
        key ++ value ++ after ++ ',' :: (rest ++ ',' :: t) := by simp
    rw [heq]
    exact .members hkey h hafter (ihrest hpart)
  | _ => cases hpart

end JsonText
