import HaskellAgent.Lib.Json

/-!
# Frames between sessions

A frame is its length, as four bytes, and its bytes.  The reader may be given fewer bytes than it
asks for, so a stream of bytes is a list of chunks, each of which has at least one byte.
-/

open List

namespace HaskellAgent
namespace Framing

abbrev Bytes := List UInt8

def encodeUtf8 (text : List Char) : Bytes := text.flatMap String.utf8EncodeChar

theorem length_encodeUtf8 (text : List Char) : (encodeUtf8 text).length = utf8Length text := by
  induction text with
  | nil => rfl
  | cons c rest ih =>
    rw [encodeUtf8, flatMap_cons, length_append, ← encodeUtf8, ih, utf8Length_cons,
      String.length_utf8EncodeChar]

def maximumFrameBytes : ℕ := 32 * 1024 * 1024

/-- A `Word32`, the most significant byte first. -/
def word32BE (n : ℕ) : Bytes :=
  [UInt8.ofNat (n / 2 ^ 24), UInt8.ofNat (n / 2 ^ 16), UInt8.ofNat (n / 2 ^ 8), UInt8.ofNat n]

def sendFrame (bytes : Bytes) : Bytes := word32BE bytes.length ++ bytes

inductive FrameError
  | invalidSize
  | disconnected
  deriving DecidableEq

/-- Read exactly `count` bytes, as many at a time as there are, and at most 65536. -/
def receiveExactly (count : ℕ) (chunks : List Bytes) : Except FrameError (Bytes × List Bytes) :=
  if count = 0 then .ok ([], chunks)
  else
    match chunks with
    | [] => .error .disconnected
    | [] :: _ => .error .disconnected
    | (byte :: chunk) :: rest =>
        let size := min count 65536
        let received := (byte :: chunk).take size
        let left := (byte :: chunk).drop size
        match receiveExactly (count - received.length)
            (if left.isEmpty then rest else left :: rest) with
        | .error err => .error err
        | .ok (bytes, remaining) => .ok (received ++ bytes, remaining)
termination_by count
decreasing_by
  simp only [length_take, length_cons]
  omega

def receiveFrame (chunks : List Bytes) : Except FrameError (Bytes × List Bytes) :=
  match receiveExactly 4 chunks with
  | .error err => .error err
  | .ok (header, chunks) =>
      let count := header.foldl (fun size byte => size * 256 + byte.toNat) 0
      if count = 0 ∨ maximumFrameBytes < count then .error .invalidSize
      else receiveExactly count chunks

/-- The bytes asked for are read, however the stream is cut. -/
theorem receiveExactly_eq (data : Bytes) {chunks : List Bytes} {rest : Bytes}
    (hchunks : [] ∉ chunks) (hstream : chunks.flatten = data ++ rest) :
    ∃ remaining, receiveExactly data.length chunks = .ok (data, remaining) ∧
      [] ∉ remaining ∧ remaining.flatten = rest := by
  induction hlength : data.length using Nat.strong_induction_on generalizing data chunks with
  | _ n ih =>
    unfold receiveExactly
    split
    · next hzero =>
      rw [hzero, length_eq_zero_iff] at hlength
      subst hlength
      exact ⟨chunks, rfl, hchunks, hstream⟩
    · next hpos =>
      cases chunks with
      | nil =>
        have hnil : data = [] := (append_eq_nil_iff.mp hstream.symm).1
        rw [hnil, length_nil] at hlength
        exact absurd hlength.symm hpos
      | cons first others =>
        cases first with
        | nil => exact absurd mem_cons_self hchunks
        | cons byte chunk =>
          rw [flatten_cons] at hstream
          -- what is received first is the beginning of the data
          have hsize : min n 65536 ≤ data.length := hlength ▸ Nat.min_le_left _ _
          have htake : (byte :: chunk).take (min n 65536) =
              data.take ((byte :: chunk).take (min n 65536)).length := by
            have hheader : (byte :: chunk).take (min n 65536) <+: data := by
              refine prefix_of_prefix_length_le
                ((List.take_prefix _ (byte :: chunk)).trans (prefix_append _ others.flatten))
                (hstream ▸ prefix_append data rest) ?_
              rw [length_take]
              omega
            exact prefix_iff_eq_take.mp hheader
          generalize hreceived : (byte :: chunk).take (min n 65536) = received at htake ⊢
          have hdata : data = received ++ data.drop received.length := by
            conv_lhs => rw [← take_append_drop received.length data, ← htake]
          have hleft : (byte :: chunk).drop (min n 65536) ++ others.flatten =
              data.drop received.length ++ rest := by
            have hwhole : received ++ ((byte :: chunk).drop (min n 65536) ++ others.flatten) =
                received ++ (data.drop received.length ++ rest) := by
              rw [← append_assoc, ← hreceived, take_append_drop, hreceived,
                ← append_assoc, ← hdata]
              exact hstream
            exact append_cancel_left hwhole
          have hshorter : (data.drop received.length).length = n - received.length := by
            rw [length_drop, hlength]
          have hsome : 0 < received.length := by
            rw [← hreceived, length_take, length_cons]
            omega
          have hothers : [] ∉ others := fun hmem => hchunks (mem_cons_of_mem _ hmem)
          obtain ⟨remaining, hread, hnonempty, hflatten⟩ := @ih (n - received.length) (by omega)
            (data.drop received.length)
            (if ((byte :: chunk).drop (min n 65536)).isEmpty then others
              else (byte :: chunk).drop (min n 65536) :: others)
            (by
              split
              · exact hothers
              · next hne =>
                rw [mem_cons, not_or]
                exact ⟨fun h => hne (by rw [← h]; rfl), hothers⟩)
            (by
              split
              · next hempty =>
                rw [List.isEmpty_iff.mp hempty, nil_append] at hleft
                exact hleft
              · exact hleft) hshorter
          refine ⟨remaining, ?_, hnonempty, hflatten⟩
          simp only [hreceived, hread]
          rw [← hdata]

theorem foldl_word32BE {n : ℕ} (h : n < 2 ^ 32) :
    (word32BE n).foldl (fun size byte => size * 256 + byte.toNat) 0 = n := by
  simp only [word32BE, foldl_cons, foldl_nil, UInt8.toNat_ofNat']
  omega

/-- **A frame within the limit is received as it was sent**, however the stream is cut. -/
theorem receiveFrame_sendFrame {bytes rest : Bytes} (hpos : 0 < bytes.length)
    (hle : bytes.length ≤ maximumFrameBytes) {chunks : List Bytes} (hchunks : [] ∉ chunks)
    (hstream : chunks.flatten = sendFrame bytes ++ rest) :
    ∃ remaining, receiveFrame chunks = .ok (bytes, remaining) ∧ [] ∉ remaining ∧
      remaining.flatten = rest := by
  rw [sendFrame, append_assoc] at hstream
  obtain ⟨behind, hheader, hbehind, hflatten⟩ :=
    receiveExactly_eq (word32BE bytes.length) hchunks hstream
  obtain ⟨remaining, hbody, hremaining, hrest⟩ := receiveExactly_eq bytes hbehind hflatten
  have hcount := foldl_word32BE (n := bytes.length)
    (lt_of_le_of_lt hle (by decide : maximumFrameBytes < 2 ^ 32))
  refine ⟨remaining, ?_, hremaining, hrest⟩
  have hfour : (word32BE bytes.length).length = 4 := rfl
  rw [hfour] at hheader
  have hvalid : ¬ (bytes.length = 0 ∨ maximumFrameBytes < bytes.length) := by omega
  simp only [receiveFrame, hheader, hcount, if_neg hvalid, hbody]

end Framing
end HaskellAgent
