import Mathlib.Data.List.Basic
import Mathlib.Data.Fintype.Basic

/-! # Bytes and the ASCII predicates on them -/

namespace Capcurl.Lib

abbrev Byte := UInt8

abbrev Bytes := List Byte

/-- A Rust `str` or `String`, held as the bytes of its UTF-8 encoding. -/
abbrev Text := List Byte

/-- The bytes of an ASCII literal. -/
def ascii (s : String) : Bytes := s.toList.map fun c => UInt8.ofNat c.toNat

/-- The byte of an ASCII character. -/
def ch (c : Char) : Byte := UInt8.ofNat c.toNat

/-! ## Every byte at once -/

theorem forall_byte {P : Byte → Prop} (h : ∀ n : Fin 256, P (UInt8.ofNat n)) (b : Byte) : P b := by
  have hb : UInt8.ofNat b.toNat = b := UInt8.ofNat_toNat
  rw [← hb]
  exact h ⟨b.toNat, UInt8.toNat_lt b⟩

/-! ## Classes -/

def isDigit (b : Byte) : Bool := 48 ≤ b && b ≤ 57

def isUpper (b : Byte) : Bool := 65 ≤ b && b ≤ 90

def isLower (b : Byte) : Bool := 97 ≤ b && b ≤ 122

def isAlphanumeric (b : Byte) : Bool := isDigit b || isUpper b || isLower b

def isHexDigit (b : Byte) : Bool := isDigit b || (65 ≤ b && b ≤ 70) || (97 ≤ b && b ≤ 102)

/-- `u8::is_ascii_graphic`: visible, and not the space. -/
def isGraphic (b : Byte) : Bool := 0x21 ≤ b && b ≤ 0x7e

/-- A tab or a printable byte, the space included. -/
def isFieldByte (b : Byte) : Bool := b == 9 || (0x20 ≤ b && b ≤ 0x7e)

/-- RFC 9110 `tchar`. -/
def isTchar (b : Byte) : Bool := isAlphanumeric b || (ascii "!#$%&'*+-.^_`|~").contains b

theorem graphic_of_tchar (b : Byte) (h : isTchar b = true) : isGraphic b = true := by
  unfold isTchar at h
  rw [Bool.or_eq_true] at h
  rcases h with h | h
  · grind [isGraphic, isAlphanumeric, isDigit, isUpper, isLower]
  · have hall : (ascii "!#$%&'*+-.^_`|~").all isGraphic = true := by decide
    exact List.all_eq_true.mp hall b (List.contains_iff_mem.mp h)

theorem field_of_graphic (b : Byte) (h : isGraphic b = true) : isFieldByte b = true := by
  grind [isGraphic, isFieldByte]

theorem field_lt (b : Byte) (h : isFieldByte b = true) : b < 128 := by
  grind [isFieldByte]

theorem graphic_lt (b : Byte) (h : isGraphic b = true) : b < 128 := field_lt b (field_of_graphic b h)

theorem digit_graphic (b : Byte) (h : isDigit b = true) : isGraphic b = true := by
  grind [isDigit, isGraphic]

/-! ## Letter case -/

def toLower (b : Byte) : Byte := if isUpper b then b + 32 else b

def toUpper (b : Byte) : Byte := if isLower b then b - 32 else b

/-- `to_ascii_lowercase` -/
def lowercase (t : Text) : Text := t.map toLower

/-- `to_ascii_uppercase` -/
def uppercase (t : Text) : Text := t.map toUpper

/-- `eq_ignore_ascii_case` -/
def eqIgnoreCase (a b : Text) : Bool := lowercase a == lowercase b

theorem toLower_toLower (b : Byte) : toLower (toLower b) = toLower b := by
  grind [toLower, isUpper]

theorem toUpper_toUpper (b : Byte) : toUpper (toUpper b) = toUpper b := by
  grind [toUpper, isLower]

theorem tchar_toUpper (b : Byte) : isTchar (toUpper b) = isTchar b := by
  unfold toUpper
  split
  · grind [isTchar, isAlphanumeric, isUpper, isLower]
  · rfl

@[simp]
theorem lowercase_lowercase (t : Text) : lowercase (lowercase t) = lowercase t := by
  simp only [lowercase, List.map_map]
  exact List.map_congr_left fun b _ => toLower_toLower b

theorem uppercase_uppercase (t : Text) : uppercase (uppercase t) = uppercase t := by
  unfold uppercase
  rw [List.map_map]
  exact List.map_congr_left fun b _ => toUpper_toUpper b

theorem eqIgnoreCase_iff (a b : Text) : eqIgnoreCase a b = true ↔ lowercase a = lowercase b := by
  simp [eqIgnoreCase]

theorem eqIgnoreCase_self (a : Text) : eqIgnoreCase a a = true := by simp [eqIgnoreCase]

def Ascii (t : Bytes) : Prop := ∀ b ∈ t, b < 128

theorem ascii_of_field (t : Bytes) (h : t.all isFieldByte = true) : Ascii t := by
  intro b hb
  exact field_lt b (List.all_eq_true.mp h b hb)

end Capcurl.Lib
