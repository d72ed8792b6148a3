import Mathlib.Tactic.IntervalCases
import Patchwork.Digest.Checksum
import Patchwork.Proofs.Outcome
import Patchwork.Proofs.Text.Cut

/-! Digests as texts.  What is computed is written in lower-case hexadecimal (`isHexDigit_compute`,
`length_compute`), so that an expected digest accepts it just where it has the same digits in any
case (`Checksum.accepts_compute_iff`).  An expected digest is read from all its spellings and from
nothing else (`Checksum.parse_eq_ok_iff`): the name of the algorithm and the digits stand on either
side of the first colon, each in any case and with blanks around it.  Its written form is one of the
spellings, and only the digits decide what it accepts (`Checksum.grammar`). -/

namespace Patchwork

namespace Checksum
variable {c : Char}

/-- A hexadecimal digit is no blank. -/
theorem isBlank_of_isHexDigit (digit : isHexDigit c) : Text.isBlank c = false := by
  simp only [isHexDigit, Bool.or_eq_true, Bool.and_eq_true, decide_eq_true_eq, Char.le_def,
    UInt32.le_iff_toNat_le] at digit
  have code : c.val.toNat = c.toNat := rfl
  simp [Text.isBlank, UInt32.le_iff_toNat_le, ← UInt32.toNat_inj] at digit ⊢
  omega

theorem toNat_lt_of_isHexDigit (digit : isHexDigit c) : c.toNat < 128 := by
  simp only [isHexDigit, Bool.or_eq_true, Bool.and_eq_true, decide_eq_true_eq, Char.le_def,
    UInt32.le_iff_toNat_le] at digit
  have code : c.val.toNat = c.toNat := rfl
  simp at digit
  omega

theorem isHexDigit_toLower (digit : isHexDigit c) : isHexDigit c.toLower := by
  have each : ∀ n < 128, isHexDigit (Char.ofNat n) → isHexDigit (Char.ofNat n).toLower := by
    decide +kernel
  have known := each c.toNat (toNat_lt_of_isHexDigit digit)
  rw [Char.ofNat_toNat] at known
  exact known digit

/-- A hexadecimal digit has one byte. -/
theorem utf8Size_of_isHexDigit (digit : isHexDigit c) : c.utf8Size = 1 := by
  have small := toNat_lt_of_isHexDigit digit
  have code : c.val.toNat = c.toNat := rfl
  rw [Char.utf8Size, if_pos (UInt32.le_iff_toNat_le.mpr (by change _ ≤ 127; omega))]

/-- Digits are left as they are where they are trimmed. -/
theorem trim_of_digits {s : String} (digits : ∀ c ∈ s.toList, isHexDigit c) : Text.trim s = s :=
  Text.trim_of_no_blank fun c listed => isBlank_of_isHexDigit (digits c listed)

theorem isHexDigit_of_mem_toLower {s : String} (digits : ∀ c ∈ s.toList, isHexDigit c) :
    ∀ c ∈ s.toLower.toList, isHexDigit c := by
  rw [Text.toList_toLower]
  exact List.forall_mem_map.mpr fun c listed => isHexDigit_toLower (digits c listed)

theorem utf8ByteSize_of_digits {s : String} (digits : ∀ c ∈ s.toList, isHexDigit c) :
    s.utf8ByteSize = s.toList.length :=
  Text.utf8ByteSize_of_short fun c listed => utf8Size_of_isHexDigit (digits c listed)

end Checksum

namespace Digest

theorem hexDigit_cases {n : Nat} (small : n < 16) :
    Checksum.isHexDigit (hexDigit n) ∧ (hexDigit n).toLower = hexDigit n := by
  interval_cases n <;> decide

/-- What is written is a digit of a value below sixteen. -/
theorem exists_of_mem_hex {bytes : List UInt8} {c : Char} (h : c ∈ (hex bytes).toList) :
    ∃ n < 16, c = hexDigit n := by
  rw [hex, String.toList_ofList, List.mem_flatMap] at h
  obtain ⟨b, -, digit⟩ := h
  have size := b.toNat_lt
  have pair : c = hexDigit (b.toNat / 16) ∨ c = hexDigit (b.toNat % 16) := by simpa using digit
  rcases pair with rfl | rfl
  · exact ⟨_, by omega, rfl⟩
  · exact ⟨_, by omega, rfl⟩

theorem length_hex (bytes : List UInt8) : (hex bytes).toList.length = 2 * bytes.length := by
  rw [hex, String.toList_ofList, List.length_flatMap]
  simp [List.map_const', Nat.mul_comm]

theorem length_bigEndian (places n : Nat) : (bigEndian places n).length = places := by
  induction places with
  | zero => rfl
  | succ places ih => rw [bigEndian, List.length_cons, ih]

theorem length_bytesOfWords (ws : List UInt32) : (bytesOfWords ws).length = 4 * ws.length := by
  rw [bytesOfWords, List.length_flatMap]
  simp [length_bigEndian, List.map_const', Nat.mul_comm]

end Digest

namespace DigestAlgorithm
variable (algorithm : DigestAlgorithm) (bytes : ByteArray) {c : Char}

theorem exists_of_mem_compute (h : c ∈ (algorithm.compute bytes).toList) :
    ∃ n < 16, c = Digest.hexDigit n := by
  cases algorithm <;> exact Digest.exists_of_mem_hex h

theorem isHexDigit_compute (h : c ∈ (algorithm.compute bytes).toList) : Checksum.isHexDigit c := by
  obtain ⟨n, small, rfl⟩ := exists_of_mem_compute algorithm bytes h
  exact (Digest.hexDigit_cases small).1

theorem length_compute : (algorithm.compute bytes).toList.length = algorithm.hexLength := by
  cases algorithm <;> rw [compute, Digest.length_hex]
  · rw [Digest.Sha1.digest, Digest.length_bytesOfWords]
    rfl
  · rw [Digest.Sha256.digest, Digest.length_bytesOfWords]
    rfl

theorem toLower_compute : (algorithm.compute bytes).toLower = algorithm.compute bytes := by
  rw [← String.toList_inj, Text.toList_toLower]
  conv_rhs => rw [← List.map_id (algorithm.compute bytes).toList]
  refine List.map_congr_left fun c h => ?_
  obtain ⟨n, small, rfl⟩ := exists_of_mem_compute algorithm bytes h
  exact (Digest.hexDigit_cases small).2

theorem trim_compute : Text.trim (algorithm.compute bytes) = algorithm.compute bytes :=
  Checksum.trim_of_digits fun _ => isHexDigit_compute algorithm bytes

theorem words_compute : Text.words (algorithm.compute bytes) = [algorithm.compute bytes] := by
  refine Text.words_of_no_blank (fun none => ?_) fun c h =>
    Checksum.isBlank_of_isHexDigit (isHexDigit_compute algorithm bytes h)
  have length := length_compute algorithm bytes
  rw [none] at length
  cases algorithm <;> cases length

/-! ## Names of algorithms -/

/-- The names that an algorithm is known by, in lower case. -/
def names : DigestAlgorithm → List String
  | sha1 => ["sha1", "sha-1"]
  | sha256 => ["sha256", "sha-256"]

variable {algorithm} {value name : String}

theorem parse_eq_ok_iff :
    parse value = .ok algorithm ↔ (Text.trim value).toLower ∈ algorithm.names := by
  unfold parse
  dsimp only
  generalize (Text.trim value).toLower = name
  cases algorithm <;> split <;> rename_i first
  · simpa [names] using first
  · split <;> simpa [names] using first
  · rcases first with rfl | rfl <;> simp [names]
  · split <;> rename_i second <;> simpa [names] using second

theorem colon_notMem_of_mem_names (listed : name ∈ algorithm.names) : ':' ∉ name.toList := by
  have each : ∀ name ∈ algorithm.names, ':' ∉ name.toList := by cases algorithm <;> decide
  exact each name listed

/-- The name that is written is one that is read. -/
theorem name_mem_names : (Text.trim algorithm.name).toLower ∈ algorithm.names := by
  cases algorithm <;> decide +kernel

end DigestAlgorithm

namespace Checksum
variable {algorithm : DigestAlgorithm} {bytes : ByteArray}

/-- **A computed digest is accepted just where the expected one has its digits**, in any case. -/
theorem accepts_compute_iff {e : Checksum} :
    e.accepts (algorithm.compute bytes) ↔ e.digest.toLower = algorithm.compute bytes := by
  rw [accepts, Text.sameIgnoringCase, beq_iff_eq, algorithm.trim_compute bytes,
    algorithm.toLower_compute bytes]

/-- A digest that was computed is accepted. -/
theorem accepts_of_eq {e : Checksum} (computed : e.algorithm.compute bytes = e.digest) :
    e.accepts (e.algorithm.compute bytes) := by
  rw [accepts_compute_iff, ← computed, DigestAlgorithm.toLower_compute]

theorem of_compute (algorithm : DigestAlgorithm) (bytes : ByteArray) :
    of algorithm (algorithm.compute bytes) = ⟨algorithm, algorithm.compute bytes⟩ := by
  rw [of, DigestAlgorithm.trim_compute, DigestAlgorithm.toLower_compute]

/-! ## Spellings -/

/-- **How a checksum may be written**: a name of its algorithm, a colon and the digits of its digest,
the name and the digits in any case and with blanks around them. -/
def SpelledBy (e : Checksum) (raw : String) : Prop :=
  ∃ name digits, raw = name ++ ":" ++ digits ∧
    (Text.trim name).toLower ∈ e.algorithm.names ∧
    (Text.trim digits).toList.length = e.algorithm.hexLength ∧
    (∀ c ∈ (Text.trim digits).toList, isHexDigit c) ∧
    e.digest = (Text.trim digits).toLower

variable {e : Checksum} {raw : String}

/-- **A checksum is read from all its spellings**, and from nothing else. -/
theorem parse_eq_ok_iff : parse raw = .ok e ↔ e.SpelledBy raw := by
  have single : ":".toList = [':'] := by decide
  unfold parse
  constructor
  · intro read
    split at read
    · cases read
    rename_i name digits cut
    obtain ⟨rfl, -⟩ := (Text.splitOnce?_eq_some_iff single).mp cut
    obtain ⟨algorithm, named, read⟩ := bind_eq_ok_iff.mp read
    dsimp only at read
    split at read
    · rename_i sound
      have all := List.all_eq_true.mp sound.2
      have size := sound.1
      rw [utf8ByteSize_of_digits all] at size
      cases read
      refine ⟨name, digits, rfl, DigestAlgorithm.parse_eq_ok_iff.mp named, size, all, ?_⟩
      rw [of, trim_of_digits all]
    · cases read
  · rintro ⟨name, digits, rfl, named, size, all, lower⟩
    -- the name has no colon in it, so the text is cut behind the name
    have free : ':' ∉ name.toList := by
      intro listed
      refine DigestAlgorithm.colon_notMem_of_mem_names named ?_
      rw [Text.toList_toLower]
      exact List.mem_map.mpr ⟨':', Text.mem_trim listed (by decide), by decide⟩
    rw [(Text.splitOnce?_eq_some_iff single).mpr ⟨rfl, free⟩]
    dsimp only
    rw [← utf8ByteSize_of_digits all] at size
    rw [DigestAlgorithm.parse_eq_ok_iff.mpr named, ok_bind,
      if_pos ⟨size, List.all_eq_true.mpr all⟩, of, trim_of_digits all, ← lower]
    rfl

/-- The digest of a checksum that is read has the digits of its algorithm, in lower case. -/
theorem SpelledBy.digest (spelled : e.SpelledBy raw) :
    e.digest.toList.length = e.algorithm.hexLength ∧ (∀ c ∈ e.digest.toList, isHexDigit c) ∧
      e.digest.toLower = e.digest := by
  obtain ⟨_, digits, -, -, size, all, lower⟩ := spelled
  rw [lower]
  refine ⟨?_, isHexDigit_of_mem_toLower all, Text.toLower_toLower _⟩
  rw [Text.toList_toLower, List.length_map, size]

/-- The written form is a spelling. -/
theorem SpelledBy.text (spelled : e.SpelledBy raw) : e.SpelledBy e.text := by
  obtain ⟨size, all, lower⟩ := spelled.digest
  refine ⟨e.algorithm.name, e.digest, rfl, DigestAlgorithm.name_mem_names, ?_, ?_, ?_⟩ <;>
    rw [trim_of_digits all]
  · exact size
  · exact all
  · exact lower.symm

/-- **What a checksum accepts**: its digits in any case, with blanks around them. -/
theorem SpelledBy.accepts_iff (spelled : e.SpelledBy raw) {found : String} :
    e.accepts found ↔ (Text.trim found).toLower = e.digest := by
  rw [accepts, Text.sameIgnoringCase, beq_iff_eq, spelled.digest.2.2]
  exact eq_comm

/-- **The grammar of checksums**: which texts are read, and as what; that the written form is read back;
and what is accepted, on which all spellings of one digest agree. -/
theorem grammar (raw : String) (e : Checksum) :
    (parse raw = .ok e ↔ e.SpelledBy raw) ∧
      (parse raw = .ok e → parse e.text = .ok e ∧
        (∀ found, e.accepts found ↔ (Text.trim found).toLower = e.digest) ∧
        ∀ raw' e', parse raw' = .ok e' → e'.digest = e.digest →
          ∀ found, e'.accepts found = e.accepts found) := by
  refine ⟨parse_eq_ok_iff, fun read => ?_⟩
  have spelled := parse_eq_ok_iff.mp read
  refine ⟨parse_eq_ok_iff.mpr spelled.text, fun _ => spelled.accepts_iff, ?_⟩
  intro raw' e' read' same found
  rw [Bool.eq_iff_iff, spelled.accepts_iff, (parse_eq_ok_iff.mp read').accepts_iff, same]

/-- A spelling with a hyphen, upper-case letters and blanks, among them a no-break space. -/
theorem grammar_demo :
    parse " SHA-1\u00a0:\tA9993E364706816ABA3E25717850C26C9CD0D89D\n" =
        .ok ⟨.sha1, "a9993e364706816aba3e25717850c26c9cd0d89d"⟩ ∧
      parse "sha1:a9993e364706816aba3e25717850c26c9cd0d89d" =
        .ok ⟨.sha1, "a9993e364706816aba3e25717850c26c9cd0d89d"⟩ ∧
      (accepts ⟨.sha1, "a9993e364706816aba3e25717850c26c9cd0d89d"⟩
        "A9993E364706816ABA3E25717850C26C9CD0D89D ") := by
  have spelled : SpelledBy ⟨.sha1, "a9993e364706816aba3e25717850c26c9cd0d89d"⟩
      " SHA-1\u00a0:\tA9993E364706816ABA3E25717850C26C9CD0D89D\n" :=
    ⟨" SHA-1\u00a0", "\tA9993E364706816ABA3E25717850C26C9CD0D89D\n", by decide +kernel,
      by decide +kernel, by decide +kernel, List.all_eq_true.mp (by decide +kernel), by decide +kernel⟩
  have read := (grammar _ _).1.mpr spelled
  obtain ⟨again, accepted, -⟩ := (grammar _ _).2 read
  exact ⟨read, again, (accepted _).mpr (by decide +kernel)⟩

/-- A computed digest is read back behind the name of its algorithm. -/
theorem parse_compute (algorithm : DigestAlgorithm) (bytes : ByteArray) :
    parse (algorithm.name ++ ":" ++ algorithm.compute bytes) =
    .ok ⟨algorithm, algorithm.compute bytes⟩ := by
  have trimmed := algorithm.trim_compute bytes
  refine parse_eq_ok_iff.mpr ⟨algorithm.name, algorithm.compute bytes, rfl,
    DigestAlgorithm.name_mem_names, ?_, fun c h => ?_, ?_⟩
  · rw [trimmed, DigestAlgorithm.length_compute]
  · exact DigestAlgorithm.isHexDigit_compute algorithm bytes (trimmed ▸ h)
  · rw [trimmed, DigestAlgorithm.toLower_compute]

end Checksum
end Patchwork
