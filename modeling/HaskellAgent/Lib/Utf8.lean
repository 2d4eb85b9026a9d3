import Mathlib.Data.List.Basic

/-!
# Texts and lines as bytes

The bytes of a text in UTF-8, read back, and the lines of a file.

## Main definitions

* `Utf8.encode`, `Utf8.decode` — texts as bytes.
* `Utf8.lines` — the parts of a file between its newlines.
-/

open List

namespace Utf8

def encode (text : List Char) : List UInt8 := text.flatMap String.utf8EncodeChar

/-- Characters one after the other; the fuel is enough where it is the number of bytes. -/
def decodeFrom : ℕ → List UInt8 → Option (List Char)
  | _, [] => some []
  | 0, _ :: _ => none
  | fuel + 1, byte :: bytes => do
    let c ← (byte :: bytes).toByteArray.utf8DecodeChar? 0
    let rest ← decodeFrom fuel ((byte :: bytes).drop c.utf8Size)
    pure (c :: rest)

def decode (bytes : List UInt8) : Option (List Char) := decodeFrom bytes.length bytes

theorem encode_cons (c : Char) (text : List Char) :
    encode (c :: text) = String.utf8EncodeChar c ++ encode text := flatMap_cons

theorem decodeFrom_encode (text : List Char) :
    ∀ fuel, (encode text).length ≤ fuel → decodeFrom fuel (encode text) = some text := by
  induction text with
  | nil =>
    intro fuel _
    cases fuel <;> rfl
  | cons c text ih =>
    intro fuel hfuel
    have hpos := Char.utf8Size_pos c
    have hlength := String.length_utf8EncodeChar c
    rw [encode_cons, length_append, hlength] at hfuel
    -- the bytes begin with those of the first character
    rcases hbytes : encode (c :: text) with _ | ⟨byte, bytes⟩
    · have hnil := congrArg List.length hbytes
      rw [encode_cons, length_append, length_nil] at hnil
      omega
    · cases fuel with
      | zero => omega
      | succ fuel =>
        have hchar : (byte :: bytes).toByteArray.utf8DecodeChar? 0 = some c := by
          rw [← hbytes, encode_cons, toByteArray_append]
          exact ByteArray.utf8DecodeChar?_utf8EncodeChar_append
        have hdrop : (byte :: bytes).drop c.utf8Size = encode text := by
          rw [← hbytes, encode_cons, ← hlength, drop_left]
        have hrest := ih fuel (by omega)
        simp only [decodeFrom, hchar, Option.bind_eq_bind, Option.bind_some, hdrop, hrest]
        rfl

/-- **A text is read back from its bytes.** -/
theorem decode_encode (text : List Char) : decode (encode text) = some text :=
  decodeFrom_encode text _ (Nat.le_refl _)

/-- Only a newline has the byte of a newline. -/
theorem newline_mem_utf8EncodeChar {c : Char} (h : (10 : UInt8) ∈ String.utf8EncodeChar c) :
    c = '\n' := by
  have hbyte : ∀ n : ℕ, (10 : UInt8) = UInt8.ofNat n → n % 256 = 10 := by
    intro n hn
    have hnat := congrArg UInt8.toNat hn
    rw [UInt8.toNat_ofNat'] at hnat
    exact hnat.symm
  simp only [String.utf8EncodeChar] at h
  split_ifs at h with h₁ h₂ h₃
  · have hn := hbyte _ (mem_singleton.mp h)
    have hval : c.val.toNat = 10 := by omega
    exact Char.ext (UInt32.toNat_inj.mp hval)
  · simp only [mem_cons, not_mem_nil, or_false] at h
    have hn := h.imp (hbyte _) (hbyte _)
    omega
  · simp only [mem_cons, not_mem_nil, or_false] at h
    have hn := h.imp (hbyte _) (Or.imp (hbyte _) (hbyte _))
    omega
  · simp only [mem_cons, not_mem_nil, or_false] at h
    have hn := h.imp (hbyte _) (Or.imp (hbyte _) (Or.imp (hbyte _) (hbyte _)))
    omega

/-! ### Lines -/

/-- The parts between newlines; after the last of them there is a line only where something
follows. -/
def lines : List UInt8 → List (List UInt8)
  | [] => []
  | byte :: rest =>
    if byte = 10 then [] :: lines rest
    else
      match lines rest with
      | [] => [[byte]]
      | line :: others => (byte :: line) :: others

theorem lines_append {line : List UInt8} (hline : (10 : UInt8) ∉ line) (rest : List UInt8) :
    lines (line ++ 10 :: rest) = line :: lines rest := by
  induction line with
  | nil => simp [lines]
  | cons byte line ih =>
    have hbyte : byte ≠ 10 := fun heq => hline (heq ▸ mem_cons_self)
    have htail := ih fun hin => hline (mem_cons_of_mem _ hin)
    rw [cons_append, lines, if_neg hbyte, htail]

end Utf8
