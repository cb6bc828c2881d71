import StyleGuide.Proofs.Checker.MadeOf
import StyleGuide.Proofs.FileOrder

/-! # Mended files keep their encoding

The bytes of a file are read back from its text, and a mended source can be written in the encoding
in which the source was read: it is made of the source and of ASCII, which both encodings have.
-/

namespace StyleGuide

open Text

namespace Encoding

variable {bytes : ByteArray} {text source : Text}

/-- Latin-1 has the characters of this text. -/
def IsLatin1 (text : Text) : Prop := ∀ c ∈ text, c.toNat < 256

theorem IsLatin1.of_madeOf (h : IsLatin1 source) (made : MadeOf source text) : IsLatin1 text := by
  intro c hc
  rcases made c hc with there | ascii
  · exact h c there
  · omega

theorem encode_of_isLatin1 (h : IsLatin1 text) :
    encode .latin1 text = .ok ⟨(text.map fun c => UInt8.ofNat c.toNat).toArray⟩ := by
  have each : text.mapM latin1Byte = .ok (text.map fun c => UInt8.ofNat c.toNat) := by
    induction text with
    | nil => rfl
    | cons c rest ih =>
        obtain ⟨here, more⟩ := List.forall_mem_cons.mp h
        rw [List.mapM_cons, ih more, latin1Byte, if_pos here]
        rfl
  rw [encode, each]
  rfl

theorem toNat_ofNat_of_byte (byte : UInt8) : (Char.ofNat byte.toNat).toNat = byte.toNat := by
  have valid : byte.toNat.isValidChar := .inl (by have := byte.toNat_lt; omega)
  rw [Char.ofNat, dif_pos valid]
  rfl

theorem decode_of_valid (valid : bytes.IsValidUTF8) :
    decode bytes = (.utf8, (String.fromUTF8 bytes valid).toList) := by
  rw [decode, String.fromUTF8?, dif_pos valid]

theorem decode_of_not_valid (other : ¬bytes.IsValidUTF8) :
    decode bytes = (.latin1, bytes.data.toList.map fun byte => Char.ofNat byte.toNat) := by
  rw [decode, String.fromUTF8?, dif_neg other]

theorem isLatin1_of_decode (other : ¬bytes.IsValidUTF8) : IsLatin1 (decode bytes).2 := by
  rw [decode_of_not_valid other]
  intro c hc
  obtain ⟨byte, -, rfl⟩ := List.mem_map.mp hc
  rw [toNat_ofNat_of_byte]
  exact byte.toNat_lt

/-- The text of a file has the bytes of the file. -/
theorem encode_decode (bytes : ByteArray) :
    (decode bytes).1.encode (decode bytes).2 = .ok bytes := by
  by_cases valid : bytes.IsValidUTF8
  · rw [decode_of_valid valid]
    simp only [encode, String.ofList_toList]
    rfl
  · have latin1 := isLatin1_of_decode valid
    rw [decode_of_not_valid valid] at latin1 ⊢
    have same : (fun byte : UInt8 => UInt8.ofNat (Char.ofNat byte.toNat).toNat) = id := by
      funext byte
      rw [toNat_ofNat_of_byte, UInt8.ofNat_toNat]
      rfl
    rw [encode_of_isLatin1 latin1, List.map_map]
    simp only [Function.comp_def, same, List.map_id]

/-- What is made of the text of a file can be written as the file is. -/
theorem exists_encode_of_madeOf (made : MadeOf (decode bytes).2 text) :
    ∃ written, (decode bytes).1.encode text = .ok written := by
  by_cases valid : bytes.IsValidUTF8
  · rw [decode_of_valid valid]
    exact ⟨_, rfl⟩
  · have latin1 := (isLatin1_of_decode valid).of_madeOf made
    rw [decode_of_not_valid valid]
    exact ⟨_, encode_of_isLatin1 latin1⟩

end Encoding

/-! ## The encoding of a mended file -/

namespace Machine

variable {m : Machine} {path : Path} {location : Location} {e : FileError}

theorem eq_of_foldlM_follow {names : List Text}
    (h : names.foldlM m.follow location = .error e) : e = .missing ∨ e = .notADirectory := by
  induction names generalizing location with
  | nil => cases h
  | cons name names ih =>
      rw [List.foldlM_cons, follow] at h
      cases kind : m.kindAt? location with
      | none =>
          simp only [kind] at h
          exact .inl (Except.error.inj h).symm
      | some there =>
          simp only [kind] at h
          cases there with
          | file => exact .inr (Except.error.inj h).symm
          | directory => exact ih h

/-- A path fails to lead anywhere only because something on the way is missing or a file. -/
theorem eq_of_resolve_error (h : m.resolve path = .error e) :
    e = .missing ∨ e = .notADirectory := by
  rw [resolve] at h
  split at h
  · exact .inl (Except.error.inj h).symm
  · simp only at h
    generalize (if path.isAbsolute then [] else m.workingDirectory) = start at h
    cases way : path.names.foldlM m.follow start with
    | error e' =>
        rw [way] at h
        obtain rfl := Except.error.inj h
        exact eq_of_foldlM_follow way
    | ok location =>
        rw [way] at h
        change (if _ then Except.error FileError.notADirectory else .ok location) = _ at h
        split at h
        · exact .inr (Except.error.inj h).symm
        · cases h

/-- Writing bytes does not fail for a character. -/
theorem write_ne_notLatin1 (m : Machine) (path : Path) (contents : ByteArray) (letter : Char) :
    m.write path contents ≠ .error (.notLatin1 letter) := by
  intro failed
  rw [write_eq] at failed
  split at failed
  · next e way =>
      obtain rfl := Except.error.inj failed
      rcases eq_of_resolve_error way with other | other <;> cases other
  · split at failed
    · cases Except.error.inj failed
    · cases failed

end Machine

namespace Checker

open Encoding

variable {c : Checker} {bytes : ByteArray} {source : Text}

/-- A report of a check that mends holds the mended source. -/
theorem exists_fixed {tokens : List Token} (fix : c.config.fix)
    (read : tokenize source = .ok tokens) :
    ∃ report fixed, c.check source = .ok report ∧ report.fixed = some fixed ∧
      MadeOf source fixed := by
  have check := c.check_of_tokenize read
  obtain ⟨fixed, written⟩ := Option.isSome_iff_exists.mp ((isSome_fixed check).trans fix)
  exact ⟨_, fixed, check, written, madeOf_fixed check written⟩

/-- A verdict on a file never says that a character cannot be written. -/
theorem verdict_ne_notLatin1 (c : Checker) (path target : Path) (bytes : ByteArray)
    (letter : Char) :
    c.verdict path bytes ≠ .error (.unwritable target (.notLatin1 letter)) := by
  rw [verdict]
  cases check : c.check (decode bytes).2 with
  | error e =>
      intro same
      cases same
  | ok report =>
      cases written : report.fixed with
      | none => simp [written]
      | some fixed =>
          obtain ⟨contents, encoded⟩ := exists_encode_of_madeOf (madeOf_fixed check written)
          simp [written, encoded]

/-- The bytes of a file are read back from its text, and the mended source of a file that has
    tokens can be written in the encoding of the file. So no check of a file fails because a
    character cannot be written. -/
theorem mended_encodable (c : Checker) :
    (∀ bytes, (decode bytes).1.encode (decode bytes).2 = .ok bytes) ∧
    (∀ bytes tokens, c.config.fix → tokenize (decode bytes).2 = .ok tokens →
      ∃ report fixed written, c.check (decode bytes).2 = .ok report ∧
        report.fixed = some fixed ∧ (decode bytes).1.encode fixed = .ok written ∧
        (¬bytes.IsValidUTF8 → (decode bytes).1 = .latin1 ∧ ∀ letter ∈ fixed, letter.toNat < 256)) ∧
    ∀ (m : Machine) (path target : Path) (letter : Char),
      ((c.checkFile path : StateM Machine _).run m).1 ≠
        .error (.unwritable target (.notLatin1 letter)) := by
  refine ⟨encode_decode, ?_, ?_⟩
  · intro bytes tokens fix read
    obtain ⟨report, fixed, check, written, made⟩ := exists_fixed fix read
    obtain ⟨contents, encoded⟩ := exists_encode_of_madeOf made
    refine ⟨report, fixed, contents, check, written, encoded, fun other => ⟨?_, ?_⟩⟩
    · rw [decode_of_not_valid other]
    · exact (isLatin1_of_decode other).of_madeOf made
  · intro m path target letter
    rw [run_checkFile]
    cases m.read path with
    | error e => exact nofun
    | ok bytes =>
        have verdict := c.verdict_ne_notLatin1 path target bytes letter
        simp only
        split
        · exact verdict
        · next contents _ =>
            have stored := m.write_ne_notLatin1 (c.target path) contents letter
            split
            · next e failed =>
                intro same
                cases same
                exact stored failed
            · exact verdict

/-- A file with a letter in Latin-1 is mended, and the letter is written as the same byte. -/
theorem mended_encodable_of_latin1 :
    let c : Checker := ⟨.ofFilter .allowAll, { fix := true }⟩
    let bytes : ByteArray := ⟨#[0x79, 0x3d, 0x22, 0xe9, 0x22, 0x0a]⟩
    ¬bytes.IsValidUTF8 ∧ (∃ tokens, tokenize (decode bytes).2 = .ok tokens) ∧ c.config.fix ∧
      ∃ report fixed written, c.check (decode bytes).2 = .ok report ∧
        report.fixed = some fixed ∧ (decode bytes).1.encode fixed = .ok written ∧
        (decode bytes).1 = .latin1 ∧ (∀ letter ∈ fixed, letter.toNat < 256) ∧
        fixed = "y = \"é\"\n".toList ∧
        written = ⟨#[0x79, 0x20, 0x3d, 0x20, 0x22, 0xe9, 0x22, 0x0a]⟩ := by
  intro c bytes
  have other : ¬bytes.IsValidUTF8 := by decide +kernel
  obtain ⟨tokens, read⟩ : ∃ tokens, (tokenize (decode bytes).2).toOption = some tokens :=
    Option.isSome_iff_exists.mp (by decide +kernel)
  have read := eq_ok_of_toOption read
  obtain ⟨report, fixed, written, check, mended, encoded, latin1⟩ :=
    (mended_encodable c).2.1 bytes tokens rfl read
  have text : (c.check (decode bytes).2).toOption.bind FileReport.fixed =
      some "y = \"é\"\n".toList := by
    decide +kernel
  rw [check] at text
  obtain rfl := Option.some.inj (mended.symm.trans text)
  have letters : ((decode bytes).1.encode "y = \"é\"\n".toList).toOption =
      some ⟨#[0x79, 0x20, 0x3d, 0x20, 0x22, 0xe9, 0x22, 0x0a]⟩ := by
    decide +kernel
  rw [encoded] at letters
  exact ⟨other, ⟨tokens, read⟩, rfl, report, _, written, check, mended, encoded,
    (latin1 other).1, (latin1 other).2, rfl, Option.some.inj letters⟩

end Checker

end StyleGuide
