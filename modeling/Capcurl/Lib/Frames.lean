import Capcurl.Lib.Bytes
import Mathlib.Algebra.Group.Nat.Defs

/-! # Little-endian numbers, and reading an exact number of items

A stream arrives in chunks, and things may be attached to a chunk, which come with its first item.
-/

namespace Capcurl.Lib

/-! ## Little-endian numbers -/

def encodeLE : Nat → Nat → Bytes
  | 0, _ => []
  | width + 1, n => UInt8.ofNat n :: encodeLE width (n / 256)

def decodeLE : Bytes → Nat
  | [] => 0
  | b :: rest => b.toNat + 256 * decodeLE rest

theorem encodeLE_length (width n : Nat) : (encodeLE width n).length = width := by
  induction width generalizing n with
  | zero => rfl
  | succ width ih => rw [encodeLE, List.length_cons, ih]

theorem decodeLE_encodeLE (width n : Nat) (h : n < 256 ^ width) : decodeLE (encodeLE width n) = n := by
  induction width generalizing n with
  | zero =>
    rw [Nat.pow_zero] at h
    obtain rfl : n = 0 := by omega
    rfl
  | succ width ih =>
    have hhigh : n / 256 < 256 ^ width := by
      rw [Nat.div_lt_iff_lt_mul (by decide), ← Nat.pow_succ]
      exact h
    rw [encodeLE, decodeLE, ih (n / 256) hhigh, UInt8.toNat_ofNat']
    omega

/-! ## Chunks -/

section Chunks

variable {α β : Type}

structure Chunk (α β : Type) where
  data : List α
  attached : List β

def dataOf (chunks : List (Chunk α β)) : List α := chunks.flatMap Chunk.data

/-- What is attached to the chunks that begin before a position. -/
def attachedBefore : Nat → List (Chunk α β) → List β
  | 0, _ => []
  | _ + 1, [] => []
  | n + 1, chunk :: chunks => chunk.attached ++ attachedBefore (n + 1 - chunk.data.length) chunks

/-- Reads until there are `need` more items, and no further: what is left of a chunk is left. A read of
nothing is the end of the stream. -/
def readExactly (need : Nat) (seen : List α) (got : List β) :
    List (Chunk α β) → Option (List α × List β × List (Chunk α β))
  | [] => if need = 0 then some (seen, got, []) else none
  | chunk :: chunks =>
    if need = 0 then some (seen, got, chunk :: chunks)
    else if chunk.data.isEmpty then none
    else if chunk.data.length ≤ need then
      readExactly (need - chunk.data.length) (seen ++ chunk.data) (got ++ chunk.attached) chunks
    else
      some (seen ++ chunk.data.take need, got ++ chunk.attached, ⟨chunk.data.drop need, []⟩ :: chunks)

/-- No read of the stream is empty before its end. -/
def Flows (chunks : List (Chunk α β)) : Prop := ∀ chunk ∈ chunks, chunk.data ≠ []

theorem attachedBefore_cons (n : Nat) (hn : 0 < n) (chunk : Chunk α β) (chunks : List (Chunk α β)) :
    attachedBefore n (chunk :: chunks) = chunk.attached ++ attachedBefore (n - chunk.data.length) chunks := by
  obtain ⟨n, rfl⟩ : ∃ k, n = k + 1 := ⟨n - 1, by omega⟩
  rfl

theorem attachedBefore_zero (chunks : List (Chunk α β)) : attachedBefore 0 chunks = [] := by
  cases chunks <;> rfl

theorem readExactly_reads (need : Nat) (seen : List α) (got : List β) (chunks : List (Chunk α β))
    (hflows : Flows chunks) (items rest : List α) (hdata : dataOf chunks = items ++ rest)
    (hneed : items.length = need) :
    ∃ left, readExactly need seen got chunks = some (seen ++ items, got ++ attachedBefore need chunks, left) ∧
      dataOf left = rest ∧ Flows left ∧
      ∀ more, attachedBefore (need + more) chunks = attachedBefore need chunks ++ attachedBefore more left := by
  induction chunks generalizing need seen got items with
  | nil =>
    obtain ⟨rfl, rfl⟩ := List.append_eq_nil_iff.mp hdata.symm
    subst hneed
    refine ⟨[], by simp [readExactly, attachedBefore_zero], rfl, hflows, fun more => ?_⟩
    rw [List.length_nil, Nat.zero_add, attachedBefore_zero, List.nil_append]
  | cons chunk chunks ih =>
    have hne := hflows chunk List.mem_cons_self
    have hmore : Flows chunks := fun c hc => hflows c (List.mem_cons_of_mem _ hc)
    have hpos := List.length_pos_of_ne_nil hne
    by_cases hzero : need = 0
    · subst hzero
      obtain rfl := List.length_eq_zero_iff.mp hneed
      refine ⟨chunk :: chunks, by simp [readExactly, attachedBefore_zero], hdata, hflows, fun more => ?_⟩
      rw [Nat.zero_add, attachedBefore_zero, List.nil_append]
    · rw [readExactly, if_neg hzero, if_neg (by simpa using hne)]
      have hsplit : chunk.data ++ dataOf chunks = items ++ rest := hdata
      have hneed' : 0 < need := Nat.pos_of_ne_zero hzero
      have hchunk : chunk.data <+: items ++ rest := ⟨dataOf chunks, hsplit⟩
      have hitems : items <+: items ++ rest := List.prefix_append items rest
      by_cases hfits : chunk.data.length ≤ items.length
      · obtain ⟨later, rfl⟩ := List.prefix_of_prefix_length_le hchunk hitems hfits
        rw [List.append_assoc, List.append_cancel_left_eq] at hsplit
        rw [List.length_append] at hneed
        obtain ⟨left, hread, hrest, hleft, hattached⟩ := ih (need - chunk.data.length) (seen ++ chunk.data)
          (got ++ chunk.attached) hmore later hsplit (by omega)
        rw [if_pos (by omega)]
        refine ⟨left, ?_, hrest, hleft, fun more => ?_⟩
        · rw [hread, attachedBefore_cons need hneed', List.append_assoc, List.append_assoc]
        · have hsum : need + more - chunk.data.length = need - chunk.data.length + more := by omega
          rw [attachedBefore_cons _ (by omega), attachedBefore_cons need hneed', hsum, hattached more,
            List.append_assoc]
      · have hlonger := Nat.lt_of_not_le hfits
        obtain ⟨kept, hkept⟩ := List.prefix_of_prefix_length_le hitems hchunk (Nat.le_of_lt hlonger)
        rw [← hkept, List.append_assoc, List.append_cancel_left_eq] at hsplit
        rw [← hkept, List.length_append] at hlonger
        have htake : chunk.data.take need = items := by rw [← hkept, ← hneed, List.take_left]
        have hdrop : chunk.data.drop need = kept := by rw [← hkept, ← hneed, List.drop_left]
        have hlen : chunk.data.length = need + kept.length := by rw [← hkept, List.length_append, hneed]
        have hnone : attachedBefore (need - chunk.data.length) chunks = [] := by
          rw [hlen, Nat.sub_eq_zero_of_le (by omega), attachedBefore_zero]
        have hne' : kept ≠ [] := List.ne_nil_of_length_pos (by omega)
        rw [if_neg (by omega), htake, hdrop]
        refine ⟨⟨kept, []⟩ :: chunks, ?_, hsplit, ?_, fun more => ?_⟩
        · rw [attachedBefore_cons need hneed', hnone, List.append_nil]
        · exact List.forall_mem_cons.mpr ⟨hne', hmore⟩
        · rw [attachedBefore_cons _ (by omega), attachedBefore_cons need hneed', hnone, List.append_nil]
          by_cases hlast : more = 0
          · subst hlast
            rw [Nat.add_zero, hnone, attachedBefore_zero]
          · have hsum : need + more - chunk.data.length = more - kept.length := by omega
            rw [attachedBefore_cons more (Nat.pos_of_ne_zero hlast), List.nil_append, hsum]

end Chunks

end Capcurl.Lib
