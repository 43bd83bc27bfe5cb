import TeeProof.Utf8

/-! JavaScript strings: sequences of UTF-16 code units, lone surrogates included.
`utf8` is `Buffer.from(s, 'utf8')`, which replaces a lone surrogate by U+FFFD. -/
namespace TeeProof

abbrev JStr := List UInt16

namespace JStr

def ofChar (c : Char) : JStr :=
  if c.toNat < 0x10000 then [UInt16.ofNat c.toNat]
  else [UInt16.ofNat (0xD800 + (c.toNat - 0x10000) / 0x400),
    UInt16.ofNat (0xDC00 + (c.toNat - 0x10000) % 0x400)]

def ofChars (s : List Char) : JStr := s.flatMap ofChar

/-- A literal of the source. -/
def lit (s : String) : JStr := ofChars s.toList

instance : Coe String JStr := ⟨lit⟩

def isHigh (u : UInt16) : Bool := 0xD800 ≤ u.toNat && u.toNat < 0xDC00
def isLow (u : UInt16) : Bool := 0xDC00 ≤ u.toNat && u.toNat < 0xE000

def single (u : UInt16) : Char :=
  if isHigh u || isLow u then Utf8.replacement else Char.ofNat u.toNat

def pair (u v : UInt16) : Char :=
  Char.ofNat (0x10000 + (u.toNat - 0xD800) * 0x400 + (v.toNat - 0xDC00))

def toChars : JStr → List Char
  | [] => []
  | [u] => [single u]
  | u :: v :: rest =>
    if isHigh u && isLow v then pair u v :: toChars rest else single u :: toChars (v :: rest)

def utf8 (s : JStr) : Bytes := Utf8.encode (toChars s)

@[simp] theorem toChars_nil : toChars [] = [] := rfl
@[simp] theorem utf8_nil : utf8 [] = [] := rfl

theorem toChars_cons (u : UInt16) (rest : JStr) (notHigh : isHigh u = false) :
    toChars (u :: rest) = single u :: toChars rest := by
  cases rest <;> simp [toChars, notHigh]

/-- Two strings encode apart unless a surrogate pair straddles the cut. -/
theorem toChars_append (s t : JStr) (cut : ∀ v ∈ t.head?, isLow v = false) :
    toChars (s ++ t) = toChars s ++ toChars t := by
  fun_induction toChars s with
  | case1 => rfl
  | case2 u =>
    cases t with
    | nil => rfl
    | cons v rest => simp [toChars, cut v (by simp)]
  | case3 u v rest both ih => simpa [toChars, both] using ih
  | case4 u v rest apart ih => simpa [toChars, apart] using ih

theorem utf8_append (s t : JStr) (cut : ∀ v ∈ t.head?, isLow v = false) :
    utf8 (s ++ t) = utf8 s ++ utf8 t := by
  simp [utf8, toChars_append s t cut]

/-- A text that holds no surrogate meets any continuation cleanly. -/
theorem toChars_append_left (s t : JStr) (plain : ∀ u ∈ s, isHigh u = false) :
    toChars (s ++ t) = toChars s ++ toChars t := by
  induction s with
  | nil => rfl
  | cons u rest ih =>
    have head := plain u (by simp)
    rw [List.cons_append, toChars_cons _ _ head, toChars_cons _ _ head,
      ih (fun v member => plain v (List.mem_cons_of_mem _ member)), List.cons_append]

theorem utf8_append_left (s t : JStr) (plain : ∀ u ∈ s, isHigh u = false) :
    utf8 (s ++ t) = utf8 s ++ utf8 t := by
  simp [utf8, toChars_append_left s t plain]

/-- A text of scalar values survives the two encodings. -/
theorem toChars_ofChar (c : Char) (rest : JStr) :
    toChars (ofChar c ++ rest) = c :: toChars rest := by
  have valid : c.toNat.isValidChar := c.valid
  simp only [Nat.isValidChar] at valid
  fun_cases ofChar
  case case1 small =>
    have unit : (UInt16.ofNat c.toNat).toNat = c.toNat := by rw [UInt16.toNat_ofNat']; omega
    have high : isHigh (UInt16.ofNat c.toNat) = false := by simp [isHigh, unit]; omega
    have low : isLow (UInt16.ofNat c.toNat) = false := by simp [isLow, unit]; omega
    rw [List.singleton_append, toChars_cons _ _ high]
    simp [single, high, low, unit]
  case case2 large =>
    have first : (UInt16.ofNat (0xD800 + (c.toNat - 0x10000) / 0x400)).toNat =
        0xD800 + (c.toNat - 0x10000) / 0x400 := by
      rw [UInt16.toNat_ofNat']; omega
    have second : (UInt16.ofNat (0xDC00 + (c.toNat - 0x10000) % 0x400)).toNat =
        0xDC00 + (c.toNat - 0x10000) % 0x400 := by
      rw [UInt16.toNat_ofNat']; omega
    have high : isHigh (UInt16.ofNat (0xD800 + (c.toNat - 0x10000) / 0x400)) = true := by
      simp [isHigh]; omega
    have low : isLow (UInt16.ofNat (0xDC00 + (c.toNat - 0x10000) % 0x400)) = true := by
      simp [isLow]; omega
    simp only [List.cons_append, List.nil_append, toChars, high, low, Bool.and_self, if_true, pair,
      first, second]
    have point : 0x10000 + (0xD800 + (c.toNat - 0x10000) / 0x400 - 0xD800) * 0x400 +
        (0xDC00 + (c.toNat - 0x10000) % 0x400 - 0xDC00) = c.toNat := by omega
    rw [point, Char.ofNat_toNat]

@[simp] theorem toChars_ofChars (s : List Char) : toChars (ofChars s) = s := by
  induction s with
  | nil => rfl
  | cons c rest ih => rw [ofChars, List.flatMap_cons, toChars_ofChar, ← ofChars, ih]

@[simp] theorem utf8_ofChars (s : List Char) : utf8 (ofChars s) = Utf8.encode s := by
  simp [utf8]

theorem single_newline (u : UInt16) : single u = '\n' ↔ u = 0x0A := by
  constructor
  · intro eq
    unfold single at eq
    split at eq
    next => exact absurd eq (by decide)
    next => exact UInt16.toNat_inj.mp (Utf8.ofNat_eq_ascii u.toNat 10 (by decide) (by decide) eq)
  · rintro rfl; decide

theorem mem_toChars_newline (s : JStr) : '\n' ∈ toChars s ↔ 0x0A ∈ s := by
  fun_induction toChars s with
  | case1 => simp
  | case2 u => simp [eq_comm (a := '\n'), single_newline, eq_comm (a := (0x0A : UInt16))]
  | case3 u v rest both ih =>
    simp only [Bool.and_eq_true, isHigh, isLow, decide_eq_true_eq] at both
    have scalar : pair u v ≠ '\n' := by
      intro eq
      have := Utf8.ofNat_eq_ascii _ 10 (by decide) (by decide) eq
      omega
    have notHigh : (0x0A : UInt16) ≠ u := by rintro rfl; simp at both
    have notLow : (0x0A : UInt16) ≠ v := by rintro rfl; simp at both
    simp [ih, scalar.symm, notHigh, notLow]
  | case4 u v rest apart ih =>
    simp only [List.mem_cons, ih, eq_comm (a := '\n'), single_newline, eq_comm (a := (0x0A : UInt16))]

/-- The octet LF stands in an encoding exactly for the unit LF. -/
theorem mem_utf8_newline (s : JStr) : (10 : UInt8) ∈ utf8 s ↔ 0x0A ∈ s :=
  (Utf8.mem_encode_ascii _ '\n' (by decide)).trans (mem_toChars_newline s)

/-- A unit of ASCII is a character of its own. -/
theorem ofChar_ascii {c : Char} {u : UInt16} (member : u ∈ ofChar c) (ascii : u.toNat < 0x80) :
    c = Char.ofNat u.toNat := by
  have valid : c.toNat < 0x110000 := by
    have := c.valid
    simp only [UInt32.isValidChar, Nat.isValidChar] at this
    change c.val.toNat < _
    omega
  unfold ofChar at member
  split at member
  next small =>
    obtain rfl := List.mem_singleton.mp member
    rw [UInt16.toNat_ofNat', Nat.mod_eq_of_lt small, Char.ofNat_toNat]
  next =>
    exfalso
    rcases List.mem_cons.mp member with rfl | second
    · rw [UInt16.toNat_ofNat'] at ascii
      omega
    · obtain rfl := List.mem_singleton.mp second
      rw [UInt16.toNat_ofNat'] at ascii
      omega

theorem ofChar_ne_nil (c : Char) : ofChar c ≠ [] := by
  fun_cases ofChar <;> exact nofun

/-- Neither does any octet of ASCII stand for another unit. -/
theorem mem_utf8_ascii {s : JStr} {b : UInt8} (ascii : b.toNat < 0x80) (positive : 0 < b.toNat) (member : b ∈ s.utf8) :
    UInt16.ofNat b.toNat ∈ s := by
  have value : (Char.ofNat b.toNat).val.toNat = b.toNat := by
    change (Char.ofNat b.toNat).toNat = _
    rw [Char.toNat_ofNat, if_pos (.inl (by omega))]
  have inside : Char.ofNat b.toNat ∈ toChars s := by
    refine (Utf8.mem_encode_ascii _ _ (by omega)).mp ?_
    rwa [value, UInt8.ofNat_toNat]
  have one (u : UInt16) (same : Char.ofNat b.toNat = single u) : UInt16.ofNat b.toNat = u := by
    unfold single at same
    split at same
    next =>
      have := Utf8.ofNat_eq_ascii 0xFFFD b.toNat ascii positive same.symm
      omega
    next =>
      rw [← Utf8.ofNat_eq_ascii u.toNat b.toNat ascii positive same.symm, UInt16.ofNat_toNat]
  clear member value
  fun_induction toChars s with
  | case1 => cases inside
  | case2 u => exact List.mem_singleton.mpr (one u (List.mem_singleton.mp inside))
  | case3 u v rest both ih =>
    rcases List.mem_cons.mp inside with here | later
    · simp only [Bool.and_eq_true, isHigh, isLow, decide_eq_true_eq] at both
      have := Utf8.ofNat_eq_ascii _ b.toNat ascii positive here.symm
      omega
    · exact List.mem_cons_of_mem u (List.mem_cons_of_mem v (ih later))
  | case4 u v rest apart ih =>
    rcases List.mem_cons.mp inside with here | later
    · exact one u here ▸ List.mem_cons_self
    · exact List.mem_cons_of_mem u (ih later)

/-- A string without lone surrogates. -/
def WellFormed (s : JStr) : Prop := ∃ text, s = ofChars text

def isAscii (s : List Char) : Bool := s.all fun c => decide (c.toNat < 0x80)

theorem ofChars_notHigh (s : List Char) (ascii : isAscii s = true) :
    ∀ u ∈ ofChars s, isHigh u = false := by
  intro u member
  obtain ⟨c, inside, here⟩ := List.mem_flatMap.mp member
  have small : c.toNat < 0x80 := by simpa using List.all_eq_true.mp ascii c inside
  rw [ofChar, if_pos (by omega), List.mem_singleton] at here
  have unit : u.toNat = c.toNat := by rw [here, UInt16.toNat_ofNat']; omega
  simp [isHigh, unit]
  omega

/-- A literal followed by any text. -/
theorem utf8_lit_append (s : String) (ascii : isAscii s.toList = true) (t : JStr) :
    utf8 (lit s ++ t) = Utf8.encode s.toList ++ utf8 t := by
  rw [lit, utf8_append_left _ _ (ofChars_notHigh _ ascii), utf8_ofChars]

/-- `s.indexOf(c)` and `s.slice(0, i)` as `pathWithoutQuery` uses them. -/
def before (c : UInt16) (s : JStr) : JStr := s.takeWhile (· ≠ c)

def startsWith (s part : JStr) : Bool := part.isPrefixOf s
def endsWith (s part : JStr) : Bool := part.isSuffixOf s
def includes (s part : JStr) : Bool := s.tails.any part.isPrefixOf

/-- Code-unit order, the order of `Array.prototype.sort` on strings. -/
def le : JStr → JStr → Bool
  | [], _ => true
  | _ :: _, [] => false
  | u :: s, v :: t => if u = v then le s t else u.toNat < v.toNat

def natDigits (n : Nat) : JStr := ofChars (Nat.toDigits 10 n)

def hexDigit (n : Nat) : UInt16 := if n < 10 then UInt16.ofNat (48 + n) else UInt16.ofNat (87 + n)

/-- `Buffer.toString('hex')`. -/
def hex (b : Bytes) : JStr := b.flatMap fun x => [hexDigit (x.toNat / 16), hexDigit (x.toNat % 16)]

@[simp] theorem length_hex (b : Bytes) : (hex b).length = 2 * b.length := by
  induction b with
  | nil => rfl
  | cons x rest ih => simp only [hex, List.flatMap_cons, List.length_append] at *; simp [ih]; omega

theorem hexDigit_injective (m n : Nat) (left : m < 16) (right : n < 16) (same : hexDigit m = hexDigit n) : m = n := by
  have all : ∀ i j : Fin 16, hexDigit i = hexDigit j → i = j := by decide
  exact congrArg Fin.val (all ⟨m, left⟩ ⟨n, right⟩ same)

theorem hex_injective : Function.Injective hex := by
  intro a
  induction a with
  | nil =>
    intro b same
    cases b with
    | nil => rfl
    | cons y rest => cases same
  | cons x rest ih =>
    intro b same
    cases b with
    | nil => cases same
    | cons y rest' =>
      have left := x.toNat_lt
      have right := y.toNat_lt
      obtain ⟨high, same⟩ := List.cons.inj same
      obtain ⟨low, same⟩ := List.cons.inj same
      have highs := hexDigit_injective _ _ (by omega) (by omega) high
      have lows := hexDigit_injective _ _ (by omega) (by omega) low
      have heads : x = y := UInt8.toNat_inj.mp (by omega)
      rw [heads, ih same]

theorem hex_injective_digest {a b : Digest} (same : hex a.1 = hex b.1) : a = b := Subtype.ext (hex_injective same)

/-- The class `[0-9a-f]` of the source's patterns. -/
def isHexUnit (u : UInt16) : Bool :=
  (48 ≤ u.toNat && u.toNat ≤ 57) || (97 ≤ u.toNat && u.toNat ≤ 102)

/-- `/^[0-9a-f]{64}$/`; without the `m` flag the anchors are the ends of the string. -/
def isHex64 (s : JStr) : Bool := s.length == 64 && s.all isHexUnit

theorem hexDigit_isHex (n : Nat) (small : n < 16) : isHexUnit (hexDigit n) = true := by
  revert n; decide

theorem hex_all (b : Bytes) : (hex b).all isHexUnit = true := by
  simp only [hex, List.all_flatMap, List.all_eq_true, List.all_cons, List.all_nil, Bool.and_true,
    Bool.and_eq_true]
  intro x _
  have := x.toNat_lt
  exact ⟨hexDigit_isHex _ (by omega), hexDigit_isHex _ (by omega)⟩

end JStr

theorem ofChars_injective : Function.Injective JStr.ofChars := fun s t same => by
  rw [← JStr.toChars_ofChars s, same, JStr.toChars_ofChars]

theorem ofChars_append (s t : List Char) : JStr.ofChars (s ++ t) = JStr.ofChars s ++ JStr.ofChars t := List.flatMap_append

end TeeProof
