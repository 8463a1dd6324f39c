import Mathlib.Data.Nat.Basic

/-!
# Bounds of segments

The constants that the detector of intros, recaps and credits shares with the hub
(`crates/kahawai-core/src/segments.rs`, lines 37–47), in milliseconds.
-/

namespace Kahawai.Core.Segments

def INTRO_MAX_MS : ℕ := 120000

def RECAP_MAX_MS : ℕ := 120000

def CREDITS_WINDOW_MS : ℕ := 450000

def INTRO_WINDOW_LIMIT_MS : ℕ := 600000

def INTRO_PERCENT_MIN_DURATION_MS : ℕ := 300000

def END_REFINEMENT_OUTWARD_MS : ℕ := 2000

def SHARED_REGION_MIN_MS : ℕ := 15000

def RECAP_MIN_MS : ℕ := 15000

def BLACK_CREDITS_MIN_MS : ℕ := 15000

def END_REFINEMENT_INWARD_MS : ℕ := 5000

def INTRO_START_SNAP_MS : ℕ := 5000

end Kahawai.Core.Segments
