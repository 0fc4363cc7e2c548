import Capcurl.Http.Chunked

/-! # The chunked encoding -/

namespace Capcurl.Spec

open Lib Http

/-- A size line: at most 16 hex digits, and no extension. -/
structure IsSize (line : Bytes) (n : Nat) : Prop where
  nonempty : line ≠ []
  short : line.length ≤ 16
  digits : ∀ b ∈ line, isHexDigit b = true
  denotes : value 16 line = n

/-- Chunks of any sizes, then a chunk of size zero and no trailer. -/
inductive Encodes : Bytes → Bytes → Prop where
  | last {line : Bytes} : IsSize line 0 → Encodes (line ++ crlf ++ crlf) []
  | chunk {line data rest body : Bytes} : IsSize line data.length → data ≠ [] → Encodes rest body →
    Encodes (line ++ crlf ++ (data ++ crlf) ++ rest) (data ++ body)

/-- Chunks of any sizes, with no last one yet. -/
inductive Row : Bytes → Bytes → Prop where
  | nil : Row [] []
  | chunk {line data rest body : Bytes} : IsSize line data.length → data ≠ [] → Row rest body →
    Row (line ++ crlf ++ (data ++ crlf) ++ rest) (data ++ body)

/-! ## Size lines -/

theorem isSize_hex (line : Bytes) (n : Nat) (h : IsSize line n) :
    ∀ b ∈ line, digitValue b < 16 := fun b hb => digitValue_of_hex b (h.digits b hb)

theorem isSize_lt (line : Bytes) (n : Nat) (h : IsSize line n) : n < u64Bound := by
  rw [← h.denotes]
  calc value 16 line < 16 ^ line.length := value_lt 16 line (isSize_hex line n h)
    _ ≤ 16 ^ 16 := Nat.pow_le_pow_right (by omega) h.short
    _ = u64Bound := rfl

theorem isSize_no (line : Bytes) (n : Nat) (h : IsSize line n) (c : Byte)
    (hc : isHexDigit c = false) : c ∉ line := by
  intro hmem
  rw [h.digits c hmem] at hc
  exact Bool.false_ne_true hc.symm

theorem parseChunkSize_iff (line : Bytes) (n : Nat) :
    parseChunkSize line = .ok n ↔ IsSize line n := by
  have hread : line ≠ [] → line.length ≤ 16 → (∀ b ∈ line, isHexDigit b = true) →
      fromUtf8 line = some line ∧ parseUnsigned 16 u64Bound line = some (value 16 line) := by
    intro hne hlen hall
    have hhex : ∀ b ∈ line, digitValue b < 16 := fun b hb => digitValue_of_hex b (hall b hb)
    refine ⟨fromUtf8_of_ascii line fun b hb => graphic_lt b (hex_graphic b (hall b hb)), ?_⟩
    rw [parseUnsigned_digits 16 u64Bound line hne (fun h => hex_ne_plus _ (hall _ h) rfl) hhex,
      if_pos (isSize_lt line _ ⟨hne, hlen, hall, rfl⟩)]
  unfold parseChunkSize
  constructor
  · intro h
    simp only [throw_else_eq_ok, Bool.or_eq_true, List.isEmpty_iff, decide_eq_true_eq, not_or,
      Bool.not_eq_true', Bool.not_eq_false, List.all_eq_true] at h
    obtain ⟨⟨⟨hne, hlen⟩, hall⟩, h⟩ := h
    obtain ⟨hutf, hparse⟩ := hread hne (by omega) hall
    rw [hutf] at h
    simp only [hparse] at h
    exact ⟨hne, by omega, hall, Except.ok.inj h⟩
  · intro h
    obtain ⟨hutf, hparse⟩ := hread h.nonempty h.short h.digits
    have hlen : ¬ line.length > 16 := Nat.not_lt.mpr h.short
    rw [if_neg (by simp [h.nonempty, hlen, List.all_eq_true.mpr h.digits]), hutf]
    simp only [hparse, h.denotes]
    rfl

theorem findCrlf_size (line rest : Bytes) (n : Nat) (h : IsSize line n) :
    findCrlf (line ++ crlf ++ rest) = some line.length :=
  findSeq_crlf_line line rest
    (findSeq_crlf_of_no_cr line (isSize_no line n h 13 (by decide)))

/-! ## Rows -/

theorem row_snoc (pre body line data : Bytes) (h : Row pre body) (hline : IsSize line data.length)
    (hne : data ≠ []) : Row (pre ++ (line ++ crlf ++ (data ++ crlf))) (body ++ data) := by
  induction h with
  | nil => simpa using Row.chunk hline hne .nil
  | chunk hline' hne' _ ih =>
    have hrow := Row.chunk hline' hne' ih
    simpa using hrow

theorem row_encodes (pre body e b : Bytes) (h : Row pre body) (he : Encodes e b) :
    Encodes (pre ++ e) (body ++ b) := by
  induction h with
  | nil => exact he
  | chunk hline hne _ ih =>
    have hwhole := Encodes.chunk hline hne ih
    simpa using hwhole

theorem row_length (pre body : Bytes) (h : Row pre body) : body.length ≤ pre.length := by
  induction h with
  | nil => exact Nat.le_refl 0
  | chunk _ _ _ ih =>
    simp only [List.length_append] at ih ⊢
    omega

end Capcurl.Spec
