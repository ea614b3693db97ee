import UkAqOps.Js.Split

/-!
# Percent encoding and paths of URLs

A part of a path is written with escapes for every character that is not unreserved; reading the
escapes back gives its UTF-8 bytes, so different parts are written differently. Parsing a path then
drops parts that are a dot and lets parts that are two dots take back the part before them.
-/

namespace UkAqOps

/-! ## Percent encoding -/

def hexDigitUpper (n : ℕ) : Char := (Nat.digitChar n).toUpper

/-- `%XX`. -/
def percentByte (byte : ℕ) : List Char := ['%', hexDigitUpper (byte / 16), hexDigitUpper (byte % 16)]

/-- The characters that `encodeURIComponent` leaves alone. -/
def isUriUnescaped (c : Char) : Bool := c.isAlphanum || c ∈ "-_.!~*'()".toList

/-- The bytes of a character in UTF-8. -/
def utf8Char (c : Char) : List ℕ := (String.utf8EncodeChar c).map UInt8.toNat

def encodeURIComponent (cs : List Char) : List Char :=
  cs.flatMap fun c ↦ if isUriUnescaped c then [c] else (utf8Char c).flatMap percentByte

def encodeRfc3986 (cs : List Char) : List Char :=
  (encodeURIComponent cs).flatMap fun c ↦ if c ∈ "!'()*".toList then percentByte c.toNat else [c]

/-- The characters that are left in the end. -/
def isUnreserved (c : Char) : Bool := c.isAlphanum || c ∈ "-_.~".toList

def hexValue (c : Char) : ℕ :=
  if c.isDigit then c.toNat - '0'.toNat
  else if c.isUpper then c.toNat - 'A'.toNat + 10
  else c.toNat - 'a'.toNat + 10

/-- Read the escapes back. -/
def percentDecode : List Char → List ℕ
  | '%' :: a :: b :: rest => (hexValue a * 16 + hexValue b) :: percentDecode rest
  | c :: rest => c.toNat :: percentDecode rest
  | [] => []

section Encoding

variable {c : Char} {cs cs' : List Char}

theorem utf8Char_of_lt (h : c.toNat < 128) : utf8Char c = [c.toNat] := by
  have hsize : c.utf8Size = 1 := by
    rw [Char.utf8Size, if_pos]
    exact UInt32.le_iff_toNat_le.mpr (Nat.le_of_lt_succ h)
  rw [utf8Char, String.utf8EncodeChar_eq_singleton hsize]
  have hval : c.val.toUInt8.toNat = c.toNat := by
    rw [UInt32.toNat_toUInt8]
    exact Nat.mod_eq_of_lt (by simpa using h.trans (by decide : 128 < 256))
  rw [List.map_singleton, hval]

theorem lt_of_mem_utf8Char {byte : ℕ} (h : byte ∈ utf8Char c) : byte < 256 := by
  obtain ⟨b, -, rfl⟩ := List.mem_map.mp h
  exact b.toNat_lt

theorem hexDigitUpper_spec {n : ℕ} (h : n < 16) :
    isUnreserved (hexDigitUpper n) = true ∧ hexDigitUpper n ∉ "!'()*".toList ∧
      hexValue (hexDigitUpper n) = n := by
  have hall : ∀ n < 16, isUnreserved (hexDigitUpper n) = true ∧
      hexDigitUpper n ∉ "!'()*".toList ∧ hexValue (hexDigitUpper n) = n := by
    decide
  exact hall n h

theorem percentDecode_percentByte {byte : ℕ} (h : byte < 256) (rest : List Char) :
    percentDecode (percentByte byte ++ rest) = byte :: percentDecode rest := by
  have hhigh := (hexDigitUpper_spec (n := byte / 16) (by omega)).2.2
  have hlow := (hexDigitUpper_spec (n := byte % 16) (by omega)).2.2
  rw [percentByte, List.cons_append, List.cons_append, List.cons_append, List.nil_append,
    percentDecode, hhigh, hlow, show byte / 16 * 16 + byte % 16 = byte by omega]

theorem percentDecode_percentBytes {bytes : List ℕ} (h : ∀ byte ∈ bytes, byte < 256)
    (rest : List Char) :
    percentDecode (bytes.flatMap percentByte ++ rest) = bytes ++ percentDecode rest := by
  induction bytes with
  | nil => rfl
  | cons byte bytes ih =>
    rw [List.flatMap_cons, List.append_assoc,
      percentDecode_percentByte (h byte List.mem_cons_self),
      ih fun b hb ↦ h b (List.mem_cons_of_mem _ hb), List.cons_append]

theorem lt_of_isAlphanum (h : c.isAlphanum = true) : 47 < c.toNat ∧ c.toNat < 128 ∧
    c.toNat ≠ 92 := by
  simp only [Char.isAlphanum, isAlpha_eq, isUpper_eq, isLower_eq, Char.isDigit,
    Bool.or_eq_true, Bool.and_eq_true, decide_eq_true_eq, ge_iff_le, UInt32.le_iff_toNat_le] at h
  have hval : c.toNat = c.val.toNat := rfl
  have hbounds : 'A'.val.toNat = 65 ∧ 'Z'.val.toNat = 90 ∧ 'a'.val.toNat = 97 ∧
      'z'.val.toNat = 122 ∧ '0'.val.toNat = 48 ∧ '9'.val.toNat = 57 := by
    decide
  omega

theorem isUnreserved_spec (h : isUnreserved c = true) : c.toNat < 128 ∧ c ≠ '%' ∧ c ≠ '/' ∧
    c ≠ '\\' := by
  rw [isUnreserved, Bool.or_eq_true, decide_eq_true_eq] at h
  rcases h with h | h
  · obtain ⟨hlower, hupper, hne⟩ := lt_of_isAlphanum h
    refine ⟨hupper, ?_, ?_, ?_⟩
    · rintro rfl
      exact absurd hlower (by decide)
    · rintro rfl
      exact absurd hlower (by decide)
    · rintro rfl
      exact absurd rfl hne
  · have hall : ∀ c ∈ "-_.~".toList, c.toNat < 128 ∧ c ≠ '%' ∧ c ≠ '/' ∧ c ≠ '\\' :=
      List.all_iff_forall_prop.mp (by decide)
    exact hall c h

/-- Both steps at once: unreserved characters stay, all others are escaped. -/
def encodeChar (c : Char) : List Char :=
  if isUnreserved c then [c] else (utf8Char c).flatMap percentByte

/-- The escapes of bytes have no character that the second step escapes. -/
theorem flatMap_percentBytes {bytes : List ℕ} (h : ∀ byte ∈ bytes, byte < 256) :
    (bytes.flatMap percentByte).flatMap
        (fun c ↦ if c ∈ "!'()*".toList then percentByte c.toNat else [c])
      = bytes.flatMap percentByte := by
  rw [List.flatMap_assoc]
  refine List.flatMap_congr fun byte hmem ↦ ?_
  have hbyte := h byte hmem
  have hhigh := (hexDigitUpper_spec (n := byte / 16) (by omega)).2.1
  have hlow := (hexDigitUpper_spec (n := byte % 16) (by omega)).2.1
  have hpercent : '%' ∉ "!'()*".toList := by decide
  rw [percentByte, List.flatMap_cons, List.flatMap_cons, List.flatMap_cons, if_neg hpercent,
    if_neg hhigh, if_neg hlow]
  rfl

theorem encodeRfc3986_eq (cs : List Char) : encodeRfc3986 cs = cs.flatMap encodeChar := by
  rw [encodeRfc3986, encodeURIComponent, List.flatMap_assoc]
  refine List.flatMap_congr fun c _ ↦ ?_
  have hsplit : isUriUnescaped c = (isUnreserved c || decide (c ∈ "!'()*".toList)) := by
    have hlist : c ∈ "-_.!~*'()".toList ↔ c ∈ "-_.~".toList ∨ c ∈ "!'()*".toList := by
      simp
      tauto
    rw [isUriUnescaped, isUnreserved, Bool.or_assoc, ← Bool.decide_or]
    simp only [hlist]
  rw [hsplit, encodeChar]
  by_cases hunreserved : isUnreserved c = true
  · have hnot : c ∉ "!'()*".toList := by
      intro hmem
      have hall : ∀ c ∈ "!'()*".toList, isUnreserved c = false :=
        List.all_iff_forall_prop.mp (by decide)
      rw [hall c hmem] at hunreserved
      exact Bool.false_ne_true hunreserved
    rw [hunreserved, Bool.true_or, if_pos rfl, List.flatMap_singleton, if_neg hnot]
  · rw [Bool.not_eq_true] at hunreserved
    rw [hunreserved, Bool.false_or]
    by_cases hmem : c ∈ "!'()*".toList
    · have hall : ∀ c ∈ "!'()*".toList, c.toNat < 128 :=
      List.all_iff_forall_prop.mp (by decide)
      rw [decide_eq_true hmem, if_pos rfl, List.flatMap_singleton, if_pos hmem,
        utf8Char_of_lt (hall c hmem)]
      exact (List.flatMap_singleton _ _).symm
    · rw [decide_eq_false hmem]
      exact flatMap_percentBytes fun byte ↦ lt_of_mem_utf8Char

theorem percentDecode_encodeChar (c : Char) (rest : List Char) :
    percentDecode (encodeChar c ++ rest) = utf8Char c ++ percentDecode rest := by
  rw [encodeChar]
  by_cases h : isUnreserved c = true
  · obtain ⟨hlt, hpercent, -⟩ := isUnreserved_spec h
    rw [if_pos h, utf8Char_of_lt hlt, List.singleton_append, percentDecode]
    · rfl
    · rintro a b rest' rfl
      exact absurd rfl hpercent
  · rw [if_neg h, percentDecode_percentBytes fun byte ↦ lt_of_mem_utf8Char]

/-- **Reading the escapes back** gives the bytes of the text. -/
theorem percentDecode_encodeRfc3986 (cs : List Char) :
    percentDecode (encodeRfc3986 cs) = cs.flatMap utf8Char := by
  rw [encodeRfc3986_eq]
  induction cs with
  | nil => rfl
  | cons c cs ih => rw [List.flatMap_cons, percentDecode_encodeChar, ih, List.flatMap_cons]

theorem flatMap_utf8Char_injective (h : cs.flatMap utf8Char = cs'.flatMap utf8Char) : cs = cs' := by
  have hbytes : cs.flatMap String.utf8EncodeChar = cs'.flatMap String.utf8EncodeChar := by
    refine List.map_injective_iff.mpr (fun x y ↦ UInt8.toNat_inj.mp) ?_
    rw [List.map_flatMap, List.map_flatMap]
    exact h
  have hstrings : String.ofList cs = String.ofList cs' := by
    rw [← String.toByteArray_inj, String.toByteArray_ofList, String.toByteArray_ofList, List.utf8Encode,
      List.utf8Encode, hbytes]
  exact String.ofList_injective hstrings

theorem encodeRfc3986_injective (h : encodeRfc3986 cs = encodeRfc3986 cs') : cs = cs' :=
  flatMap_utf8Char_injective (by
    rw [← percentDecode_encodeRfc3986, ← percentDecode_encodeRfc3986, h])

/-- A part that is written has no separators. -/
theorem not_separator_of_mem_encode (h : c ∈ encodeRfc3986 cs) : c ≠ '/' ∧ c ≠ '\\' := by
  rw [encodeRfc3986_eq] at h
  obtain ⟨d, -, h⟩ := List.mem_flatMap.mp h
  rw [encodeChar] at h
  split at h
  · rename_i hd
    rw [List.mem_singleton.mp h]
    exact (isUnreserved_spec hd).2.2
  · obtain ⟨byte, hbyte, h⟩ := List.mem_flatMap.mp h
    have hlt := lt_of_mem_utf8Char hbyte
    have hhigh := (hexDigitUpper_spec (n := byte / 16) (by omega)).1
    have hlow := (hexDigitUpper_spec (n := byte % 16) (by omega)).1
    rw [percentByte, List.mem_cons, List.mem_cons, List.mem_singleton] at h
    rcases h with rfl | rfl | rfl
    · decide
    · exact (isUnreserved_spec hhigh).2.2
    · exact (isUnreserved_spec hlow).2.2

end Encoding

/-! ## Paths of URLs -/

/-- The parts of a path behind those that are kept so far, without dots. A dot at the end leaves an
empty part. -/
def removeDots (isSingle isDouble : List Char → Bool) :
    List (List Char) → List (List Char) → List (List Char)
  | kept, [] => kept
  | kept, [last] =>
    if isDouble last then kept.dropLast ++ [[]]
    else if isSingle last then kept ++ [[]]
    else kept ++ [last]
  | kept, part :: rest =>
    removeDots isSingle isDouble
      (if isDouble part then kept.dropLast else if isSingle part then kept else kept ++ [part]) rest

/-- The ways to write a dot in a URL. -/
def singleDots : List (List Char) := [".".toList, "%2e".toList, "%2E".toList]

def isSingleDot (part : List Char) : Bool := part ∈ singleDots

def isDoubleDot (part : List Char) : Bool :=
  part ∈ singleDots.flatMap fun first ↦ singleDots.map fun second ↦ first ++ second

def joinPath (parts : List (List Char)) : List Char := '/' :: List.intercalate ['/'] parts

/-- `url.pathname` of an `https` URL after it is set to a path that starts with a slash and whose
other characters are unreserved, escapes or slashes. -/
def urlPathname (path : List Char) : List Char :=
  joinPath (removeDots isSingleDot isDoubleDot []
    (splitChars (fun c ↦ c = '/' ∨ c = '\\') (path.drop 1)))

section Dots

variable {isSingle isDouble isSingle' isDouble' : List Char → Bool}
variable {kept parts : List (List Char)}

/-- Dots are removed before or after the parts are written. -/
theorem removeDots_map {write : List Char → List Char} (hnil : write [] = [])
    (hsingle : ∀ part ∈ parts, isSingle' (write part) = isSingle part)
    (hdouble : ∀ part ∈ parts, isDouble' (write part) = isDouble part) :
    removeDots isSingle' isDouble' (kept.map write) (parts.map write)
      = (removeDots isSingle isDouble kept parts).map write := by
  induction parts generalizing kept with
  | nil => rfl
  | cons part rest ih =>
    have hs := hsingle part List.mem_cons_self
    have hd := hdouble part List.mem_cons_self
    rcases rest with _ | ⟨next, rest⟩
    · simp only [List.map_cons, List.map_nil, removeDots, hs, hd]
      split
      · rw [List.map_append, List.map_dropLast, List.map_singleton, hnil]
      · split
        · rw [List.map_append, List.map_singleton, hnil]
        · rw [List.map_append, List.map_singleton]
    · have hrest := @ih
        (if isDouble part then kept.dropLast else if isSingle part then kept else kept ++ [part])
        (fun part hmem ↦ hsingle part (List.mem_cons_of_mem _ hmem))
        fun part hmem ↦ hdouble part (List.mem_cons_of_mem _ hmem)
      rw [removeDots, ← hrest]
      · rw [List.map_cons, removeDots, hs, hd]
        · refine congrArg (removeDots isSingle' isDouble' · _) ?_
          split
          · rw [List.map_dropLast]
          · split
            · rfl
            · rw [List.map_append, List.map_singleton]
        · exact fun h ↦ nomatch h
      · exact fun h ↦ nomatch h

/-- There is a part left. -/
theorem removeDots_ne_nil (hne : parts ≠ []) : removeDots isSingle isDouble kept parts ≠ [] := by
  induction parts generalizing kept with
  | nil => exact absurd rfl hne
  | cons part rest ih =>
    rcases rest with _ | ⟨next, rest⟩
    · rw [removeDots]
      split
      · simp
      · split
        · simp
        · simp
    · rw [removeDots]
      · exact ih (List.cons_ne_nil _ _)
      · exact fun h ↦ nomatch h

end Dots

/-! ## Written dots -/

/-- A part that is a dot. -/
def isDot (part : List Char) : Bool := part = ['.']

/-- A part that is two dots. -/
def isDots (part : List Char) : Bool := part = ['.', '.']

section WrittenDots

variable {part : List Char}

theorem percentDecode_of_isSingleDot (h : isSingleDot part = true) :
    percentDecode part = ['.'].flatMap utf8Char := by
  have hall : ∀ part ∈ singleDots, percentDecode part = ['.'].flatMap utf8Char := by decide
  exact hall part (of_decide_eq_true h)

theorem percentDecode_of_isDoubleDot (h : isDoubleDot part = true) :
    percentDecode part = ['.', '.'].flatMap utf8Char := by
  have hall : ∀ part ∈ singleDots.flatMap fun first ↦ singleDots.map fun second ↦ first ++ second,
      percentDecode part = ['.', '.'].flatMap utf8Char := by
    decide
  exact hall part (of_decide_eq_true h)

/-- A written part is a dot only if it was one. -/
theorem isSingleDot_encode (part : List Char) : isSingleDot (encodeRfc3986 part) = isDot part := by
  rw [Bool.eq_iff_iff]
  constructor
  · intro h
    have hdecode := percentDecode_of_isSingleDot h
    rw [percentDecode_encodeRfc3986] at hdecode
    exact decide_eq_true (flatMap_utf8Char_injective hdecode)
  · intro h
    rw [of_decide_eq_true h]
    decide

theorem isDoubleDot_encode (part : List Char) : isDoubleDot (encodeRfc3986 part) = isDots part := by
  rw [Bool.eq_iff_iff]
  constructor
  · intro h
    have hdecode := percentDecode_of_isDoubleDot h
    rw [percentDecode_encodeRfc3986] at hdecode
    exact decide_eq_true (flatMap_utf8Char_injective hdecode)
  · intro h
    rw [of_decide_eq_true h]
    decide

end WrittenDots

/-! ## Paths of parts -/

section Paths

variable {parts parts' : List (List Char)}

theorem joinPath_injective (hne : parts ≠ []) (hne' : parts' ≠ [])
    (hfree : ∀ part ∈ parts, ∀ c ∈ part, c ≠ '/') (hfree' : ∀ part ∈ parts', ∀ c ∈ part, c ≠ '/')
    (h : joinPath parts = joinPath parts') : parts = parts' := by
  have hjoin := (List.cons.inj h).2
  have hslash : (fun c : Char ↦ decide (c = '/')) '/' = true := by simp
  have hsplit := splitChars_intercalate hslash hne fun part hmem c hc ↦
    decide_eq_false (hfree part hmem c hc)
  have hsplit' := splitChars_intercalate hslash hne' fun part hmem c hc ↦
    decide_eq_false (hfree' part hmem c hc)
  rw [← hsplit, ← hsplit', hjoin]

end Paths

end UkAqOps
