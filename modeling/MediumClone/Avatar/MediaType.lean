import MediumClone.Avatar.Handler

/-!
# Avatar — Media type

Which byte sequences `getAvatarMediaType` takes for which of the three formats.

JPEG and PNG are told by the bytes they start with.  The containers of WebP are compared as text
decoded by `toString('ascii')`, which drops the high bit of every byte; so 256 spellings of the
eight bytes are taken for WebP, of which one is (`detection_exact_iff`).
-/

namespace MediumClone.Avatar
open Js

/-! ### Signatures -/

def RIFF_BYTES : Bytes := [0x52, 0x49, 0x46, 0x46]
def WEBP_BYTES : Bytes := [0x57, 0x45, 0x42, 0x50]

/-- The bytes have the signature of the format. -/
def HasSignature (buffer : Bytes) : AvatarMediaType → Prop
  | .jpeg => [0xff, 0xd8, 0xff] <+: buffer
  | .png => [0x89, 0x50, 0x4e, 0x47, 0x0d, 0x0a, 0x1a, 0x0a] <+: buffer
  | .webp => 12 ≤ buffer.length ∧ buffer.take 4 = RIFF_BYTES ∧ (buffer.drop 8).take 4 = WEBP_BYTES

/-- Each signature is taken for its format, nothing else is, and no bytes have two of them. -/
def DetectsExactly (buffer : Bytes) : Prop :=
  (∀ mediaType, getAvatarMediaType (some buffer) = some mediaType ↔
    HasSignature buffer mediaType) ∧
  ∀ mediaType mediaType', HasSignature buffer mediaType → HasSignature buffer mediaType' →
    mediaType = mediaType'

def dropHighBit (b : UInt8) : UInt8 := UInt8.ofNat (b.toNat % 128)

/-- Without the high bits, the bytes have the signature of WebP. -/
def ReadsAsWebp (buffer : Bytes) : Prop :=
  12 ≤ buffer.length ∧ (buffer.take 4).map dropHighBit = RIFF_BYTES ∧
    ((buffer.drop 8).take 4).map dropHighBit = WEBP_BYTES

/-- A byte of the two containers has its high bit set. -/
def HasHighBit (buffer : Bytes) : Prop :=
  ∃ b ∈ buffer.take 4 ++ (buffer.drop 8).take 4, 128 ≤ b.toNat

instance (buffer : Bytes) : Decidable (ReadsAsWebp buffer) := by
  unfold ReadsAsWebp
  infer_instance

instance (buffer : Bytes) : DecidablePred (HasSignature buffer)
  | .jpeg => inferInstanceAs (Decidable (_ <+: buffer))
  | .png => inferInstanceAs (Decidable (_ <+: buffer))
  | .webp => inferInstanceAs (Decidable (_ ∧ _))

/-! ### Decoded text -/

section

variable {buffer l l' : Bytes} {b : UInt8}

theorem toNat_dropHighBit : (dropHighBit b).toNat = b.toNat % 128 := by
  have hlt : b.toNat % 128 < 128 := Nat.mod_lt _ (by omega)
  rw [dropHighBit, UInt8.toNat_ofNat']
  omega

theorem dropHighBit_of_lt (h : b.toNat < 128) : dropHighBit b = b := by
  rw [dropHighBit, Nat.mod_eq_of_lt h, UInt8.ofNat_toNat]

theorem map_dropHighBit_of_lt (h : ∀ b ∈ l, b.toNat < 128) : l.map dropHighBit = l := by
  rw [List.map_congr_left fun b hb => dropHighBit_of_lt (h b hb), List.map_id']

theorem toNat_char_ofNat {n : ℕ} (h : n < 128) : (Char.ofNat n).toNat = n := by
  rw [Char.ofNat, dif_pos (.inl (h.trans (by omega)))]
  rfl

/-- The text tells the bytes up to their high bits. -/
theorem toAscii_eq_iff : toAscii l = toAscii l' ↔ l.map dropHighBit = l'.map dropHighBit := by
  induction l generalizing l' with
  | nil => cases l' <;> simp [toAscii]
  | cons b l ih =>
      cases l' with
      | nil => simp [toAscii]
      | cons b' l' =>
          have hhead : Char.ofNat (b.toNat % 128) = Char.ofNat (b'.toNat % 128) ↔
              dropHighBit b = dropHighBit b' := by
            rw [← UInt8.toNat_inj, toNat_dropHighBit, toNat_dropHighBit]
            refine ⟨fun h => ?_, fun h => by rw [h]⟩
            have hval := congrArg Char.toNat h
            rwa [toNat_char_ofNat (Nat.mod_lt _ (by omega)),
              toNat_char_ofNat (Nat.mod_lt _ (by omega))] at hval
          simp only [toAscii, List.map_cons, List.cons.injEq] at ih ⊢
          rw [hhead, ih]

theorem toAscii_eq_riff : toAscii l = RIFF_CONTAINER ↔ l.map dropHighBit = RIFF_BYTES :=
  @toAscii_eq_iff l RIFF_BYTES

theorem toAscii_eq_webp : toAscii l = WEBP_CONTAINER ↔ l.map dropHighBit = WEBP_BYTES :=
  @toAscii_eq_iff l WEBP_BYTES

/-! ### What is detected -/

theorem jpeg_iff : (buffer.length ≥ 3 ∧ buffer[0]? = some 0xff ∧ buffer[1]? = some 0xd8 ∧
    buffer[2]? = some 0xff) ↔ HasSignature buffer .jpeg := by
  rw [HasSignature]
  match buffer with
  | [] | [_] | [_, _] => simp
  | a :: b :: c :: rest => simp [eq_comm]

theorem png_iff : buffer.take PNG_SIGNATURE.length = PNG_SIGNATURE ↔ HasSignature buffer .png :=
  eq_comm.trans List.prefix_iff_eq_take.symm

theorem getAvatarMediaType_eq : getAvatarMediaType (some buffer) =
    if HasSignature buffer .jpeg then some .jpeg
    else if HasSignature buffer .png then some .png
    else if ReadsAsWebp buffer then some .webp
    else none := by
  simp only [getAvatarMediaType, jpeg_iff, png_iff, toAscii_eq_riff, toAscii_eq_webp, ReadsAsWebp,
    ge_iff_le]

/-- The first byte, without its high bit, tells the formats apart. -/
def formatByte : AvatarMediaType → UInt8
  | .jpeg => 0x7f
  | .png => 0x09
  | .webp => 0x52

theorem formatByte_inj {m m' : AvatarMediaType} (h : formatByte m = formatByte m') : m = m' := by
  cases m <;> cases m' <;> first | rfl | cases h

theorem head_of_readsAsWebp (h : ReadsAsWebp buffer) :
    buffer.head?.map dropHighBit = some (formatByte .webp) := by
  obtain ⟨-, hriff, -⟩ := h
  cases buffer with
  | nil => cases hriff
  | cons b rest => exact congrArg some (List.cons.inj hriff).1

theorem HasSignature.readsAsWebp (h : HasSignature buffer .webp) : ReadsAsWebp buffer := by
  obtain ⟨hlen, hriff, hwebp⟩ := h
  exact ⟨hlen, by rw [hriff]; rfl, by rw [hwebp]; rfl⟩

theorem HasSignature.head {m : AvatarMediaType} (h : HasSignature buffer m) :
    buffer.head?.map dropHighBit = some (formatByte m) := by
  cases m with
  | jpeg =>
      obtain ⟨rest, rfl⟩ := h
      rfl
  | png =>
      obtain ⟨rest, rfl⟩ := h
      rfl
  | webp => exact head_of_readsAsWebp h.readsAsWebp

theorem HasSignature.eq {m m' : AvatarMediaType} (h : HasSignature buffer m)
    (h' : HasSignature buffer m') : m = m' :=
  formatByte_inj (Option.some.inj (h.head.symm.trans h'.head))

theorem getAvatarMediaType_eq_some {m : AvatarMediaType} :
    getAvatarMediaType (some buffer) = some m ↔
      HasSignature buffer m ∨ m = .webp ∧ ReadsAsWebp buffer := by
  rw [getAvatarMediaType_eq]
  constructor
  · intro h
    split at h
    · cases h
      exact .inl ‹_›
    · split at h
      · cases h
        exact .inl ‹_›
      · split at h
        · cases h
          exact .inr ⟨rfl, ‹_›⟩
        · cases h
  · intro h
    have hhead : buffer.head?.map dropHighBit = some (formatByte m) := by
      rcases h with h | ⟨rfl, h⟩
      · exact h.head
      · exact head_of_readsAsWebp h
    have hne : ∀ m', m' ≠ m → ¬ HasSignature buffer m' := fun m' hne h' =>
      hne (formatByte_inj (Option.some.inj (h'.head.symm.trans hhead)))
    cases m with
    | jpeg => exact if_pos (h.resolve_right nofun)
    | png =>
        rw [if_neg (hne .jpeg nofun)]
        exact if_pos (h.resolve_right nofun)
    | webp =>
        rw [if_neg (hne .jpeg nofun), if_neg (hne .png nofun)]
        exact if_pos (h.elim HasSignature.readsAsWebp And.right)

/-- **Detection is exact but for high bits.**  The three signatures are told apart exactly, unless
the bytes read as WebP only because the high bit of one of them is dropped. -/
theorem detection_exact_iff (buffer : Bytes) :
    DetectsExactly buffer ↔ ¬ (ReadsAsWebp buffer ∧ HasHighBit buffer) := by
  constructor
  · rintro ⟨hexact, -⟩ ⟨hreads, b, hb, hhigh⟩
    -- a signature has no high bits
    have hdetected := getAvatarMediaType_eq_some.mpr (.inr ⟨rfl, hreads⟩)
    obtain ⟨-, hriff, hwebp⟩ := (hexact .webp).mp hdetected
    rw [hriff, hwebp] at hb
    have hlow : ∀ b ∈ RIFF_BYTES ++ WEBP_BYTES, b.toNat < 128 := by
      simp [RIFF_BYTES, WEBP_BYTES]
    exact absurd (hlow b hb) (Nat.not_lt.mpr hhigh)
  · intro hlow
    have hreads : ReadsAsWebp buffer → HasSignature buffer .webp := by
      intro h
      have hlt : ∀ b ∈ buffer.take 4 ++ (buffer.drop 8).take 4, b.toNat < 128 := fun b hb =>
        Nat.lt_of_not_le fun hhigh => hlow ⟨h, b, hb, hhigh⟩
      obtain ⟨hlen, hriff, hwebp⟩ := h
      rw [map_dropHighBit_of_lt fun b hb => hlt b (List.mem_append_left _ hb)] at hriff
      rw [map_dropHighBit_of_lt fun b hb => hlt b (List.mem_append_right _ hb)] at hwebp
      exact ⟨hlen, hriff, hwebp⟩
    refine ⟨fun m => getAvatarMediaType_eq_some.trans ⟨?_, .inl⟩, fun _ _ => HasSignature.eq⟩
    rintro (h | ⟨rfl, h⟩)
    · exact h
    · exact hreads h

/-- `RIFF` with the high bit of its `R`. -/
theorem not_detectsExactly_highBit : ¬ DetectsExactly
    [0xd2, 0x49, 0x46, 0x46, 0, 0, 0, 0, 0x57, 0x45, 0x42, 0x50] := by
  rintro ⟨hexact, -⟩
  have hsignature := (hexact .webp).mp (by decide)
  revert hsignature
  decide

end

end MediumClone.Avatar
