import Wingray.AudioHardware
import Wingray.WordAlignment

/-!
# The size of the input buffer

The buffer the HAL asks for is to hold 20 ms of the requested channels. The
channel count is chosen the wrong way round.
-/

set_option autoImplicit false

namespace Wingray.AudioBuffer
open Wingray.WordAlignment Wingray.AudioHardware

/-- The constants of `system/audio.h` the size depends on. -/
structure AudioHeader where
  AUDIO_FORMAT_PCM_16_BIT : BitVec 32
  AUDIO_CHANNEL_IN_MONO : BitVec 32
  AUDIO_CHANNEL_IN_STEREO : BitVec 32
  mono_ne_stereo : AUDIO_CHANNEL_IN_MONO ≠ AUDIO_CHANNEL_IN_STEREO

structure AudioConfig where
  sampleRate : Rate
  channelMask : BitVec 32
  format : BitVec 32

variable (header : AudioHeader) (config : AudioConfig)

def sizeofInt16 : BitVec 32 := 2

def channelCount : BitVec 8 :=
  if config.channelMask ≠ header.AUDIO_CHANNEL_IN_STEREO then 2 else 1

/-- `size_t` has 32 bits. -/
def adevGetInputBufferSize : BitVec 32 :=
  if config.format ≠ header.AUDIO_FORMAT_PCM_16_BIT then 0
  else if config.channelMask ≠ header.AUDIO_CHANNEL_IN_MONO ∧
      config.channelMask ≠ header.AUDIO_CHANNEL_IN_STEREO then 0
  else
    let bufsize := config.sampleRate*sizeofInt16*(channelCount header config).setWidth 32/50
    if bufsize &&& 7 ≠ 0 then (bufsize+8) &&& ~~~7 else bufsize

def twentyMs (rate channels : ℕ) : ℕ := rate*2*channels/50

def requestedChannels : ℕ :=
  if config.channelMask = header.AUDIO_CHANNEL_IN_MONO then 1 else 2

def Accepted : Prop :=
  config.format = header.AUDIO_FORMAT_PCM_16_BIT ∧
    (config.channelMask = header.AUDIO_CHANNEL_IN_MONO ∨
      config.channelMask = header.AUDIO_CHANNEL_IN_STEREO)

/-! ## What the buffer holds -/

theorem requestedChannels_cases : requestedChannels header config = 1 ∨
    requestedChannels header config = 2 := by
  rw [requestedChannels]
  split_ifs
  · exact Or.inl rfl
  · exact Or.inr rfl

section Size

variable {header config}

theorem channelCount_swapped (h : Accepted header config) :
    (channelCount header config).toNat = 3-requestedChannels header config := by
  obtain ⟨-, hmono | hstereo⟩ := h
  · rw [channelCount, if_pos (hmono ▸ header.mono_ne_stereo), requestedChannels, if_pos hmono]
    rfl
  · rw [channelCount, if_neg (not_not.mpr hstereo), requestedChannels,
      if_neg (hstereo ▸ header.mono_ne_stereo.symm)]
    rfl

theorem size_alignUp (h : Accepted header config) :
    adevGetInputBufferSize header config = alignUp 3
      (config.sampleRate*sizeofInt16*(channelCount header config).setWidth 32/50) := by
  obtain ⟨hformat, hmask⟩ := h
  rw [adevGetInputBufferSize, if_neg (not_not.mpr hformat), if_neg (by tauto)]
  rfl

theorem bufsize_toNat (h : Accepted header config) (hrate : config.sampleRate.toNat < 2^30) :
    (config.sampleRate*sizeofInt16*(channelCount header config).setWidth 32/50).toNat =
      twentyMs config.sampleRate.toNat (3-requestedChannels header config) := by
  have hcount := channelCount_swapped h
  have hwide : ((channelCount header config).setWidth 32).toNat =
      3-requestedChannels header config := by
    rw [BitVec.toNat_setWidth, hcount]
    omega
  have hdouble : (config.sampleRate*sizeofInt16).toNat = config.sampleRate.toNat*2 := by
    have htwo : sizeofInt16.toNat = 2 := rfl
    rw [BitVec.toNat_mul, htwo]
    exact Nat.mod_eq_of_lt (by omega)
  rw [BitVec.toNat_udiv, BitVec.toNat_mul, hdouble, hwide, twentyMs]
  congr 1
  apply Nat.mod_eq_of_lt
  obtain hc | hc := requestedChannels_cases header config <;> rw [hc] <;> omega

theorem size_least_other (h : Accepted header config) (hrate : config.sampleRate.toNat < 2^30) :
    IsLeast {m | 8 ∣ m ∧
      twentyMs config.sampleRate.toNat (3-requestedChannels header config) ≤ m}
      (adevGetInputBufferSize header config).toNat := by
  have hsize := bufsize_toNat h hrate
  have hroom : twentyMs config.sampleRate.toNat (3-requestedChannels header config)+8 < 2^32 := by
    rw [twentyMs]
    obtain hc | hc := requestedChannels_cases header config <;> rw [hc] <;> omega
  rw [← hsize] at hroom ⊢
  rw [size_alignUp h]
  exact alignUp_isLeast 3 (by decide) _ hroom

theorem size_toNat (h : Accepted header config) (hrate : config.sampleRate.toNat < 2^30) :
    (adevGetInputBufferSize header config).toNat =
      8*(twentyMs config.sampleRate.toNat (3-requestedChannels header config) ⌈/⌉ 8) :=
  (size_least_other h hrate).unique (isLeast_multiple 8 _ (by decide))

end Size

theorem twentyMs_one (r : ℕ) : twentyMs r 1 = r/25 := by
  rw [twentyMs]
  omega

theorem twentyMs_two (r : ℕ) : twentyMs r 2 = 2*r/25 := by
  rw [twentyMs]
  omega

theorem ceilDiv_agree (r : ℕ) :
    twentyMs r 1 ⌈/⌉ 8 = twentyMs r 2 ⌈/⌉ 8 ↔ r ≤ 12 ∨ 25 ≤ r ∧ r ≤ 112 := by
  rw [twentyMs_one, twentyMs_two, Nat.ceilDiv_eq_add_pred_div, Nat.ceilDiv_eq_add_pred_div]
  obtain hr | hr | hr | hr | hr : r ≤ 12 ∨ (13 ≤ r ∧ r ≤ 24) ∨ (25 ≤ r ∧ r ≤ 112) ∨
      (113 ≤ r ∧ r < 200) ∨ 200 ≤ r := by omega
  · have hmono : r/25 = 0 := by omega
    have hstereo : 2*r/25 = 0 := by omega
    simp only [hmono, hstereo, hr, true_or]
  · have hmono : r/25 = 0 := by omega
    have hstereo : 2*r/25 = 1 := by omega
    rw [hmono, hstereo]
    omega
  · have hmono : (r/25+8-1)/8 = 1 := by omega
    have hstereo : (2*r/25+8-1)/8 = 1 := by omega
    simp only [hmono, hstereo, hr, and_self, or_true]
  · have hmono : (r/25+8-1)/8 = 1 := by omega
    have hstereo : 2 ≤ (2*r/25+8-1)/8 := by omega
    omega
  · -- eight bytes more than half of the larger one
    have hstereo : r/25+8 ≤ 2*r/25 := by omega
    omega

/-! ## The requested channels -/

section Requested

variable {header config}

/-- The swapped count leaves the size right only where one channel and two
come to the same size. -/
theorem size_least_iff (h : Accepted header config) (hrate : config.sampleRate.toNat < 2^30) :
    IsLeast {m | 8 ∣ m ∧
        twentyMs config.sampleRate.toNat (requestedChannels header config) ≤ m}
        (adevGetInputBufferSize header config).toNat ↔
      config.sampleRate.toNat ≤ 12 ∨
        25 ≤ config.sampleRate.toNat ∧ config.sampleRate.toNat ≤ 112 := by
  rw [(isLeast_multiple 8 _ (by decide)).isLeast_iff_eq, size_toNat h hrate, ← ceilDiv_agree,
    Nat.mul_right_inj (by decide)]
  obtain hc | hc := requestedChannels_cases header config
  · rw [hc]
  · rw [hc]
    exact eq_comm

end Requested

def androidHeader : AudioHeader where
  AUDIO_FORMAT_PCM_16_BIT := 0x1
  AUDIO_CHANNEL_IN_MONO := 0x10
  AUDIO_CHANNEL_IN_STEREO := 0xc
  mono_ne_stereo := by decide

def stereoConfig (rate : Rate) : AudioConfig where
  sampleRate := rate
  channelMask := androidHeader.AUDIO_CHANNEL_IN_STEREO
  format := androidHeader.AUDIO_FORMAT_PCM_16_BIT

theorem size_least_slow :
    IsLeast {m | 8 ∣ m ∧ twentyMs 100 2 ≤ m}
      (adevGetInputBufferSize androidHeader (stereoConfig 100)).toNat :=
  (size_least_iff (show Accepted androidHeader (stereoConfig 100) from ⟨rfl, Or.inr rfl⟩)
    (by decide)).mpr (Or.inr (by decide))

/-- A stereo request at 44100 Hz is given 10 ms. -/
theorem stereo_halved :
    twentyMs 44100 2 = 3528 ∧
    (adevGetInputBufferSize androidHeader (stereoConfig 44100)).toNat = 1768 ∧
    ¬ IsLeast {m | 8 ∣ m ∧ twentyMs 44100 2 ≤ m}
      (adevGetInputBufferSize androidHeader (stereoConfig 44100)).toNat := by
  have hsize : (adevGetInputBufferSize androidHeader (stereoConfig 44100)).toNat = 1768 := by
    decide
  refine ⟨by decide, hsize, ?_⟩
  intro hleast
  have henough : twentyMs 44100 2 ≤ 1768 := hsize ▸ hleast.1.2
  exact absurd henough (by decide)

end Wingray.AudioBuffer
