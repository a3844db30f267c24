import Bpftime.BpfMap.GpuArray.Impl
import Bpftime.Data.Grid
import Bpftime.Data.SignExtend

namespace Bpftime.GpuArray

namespace Launch

variable (l : Launch)

def width : ℕ := l.gridDim.x.toNat * l.blockDim.x.toNat

def height : ℕ := l.gridDim.y.toNat * l.blockDim.y.toNat

def depth : ℕ := l.gridDim.z.toNat * l.blockDim.z.toNat

def total : ℕ := l.depth * l.height * l.width

def Runs (t : Thread) : Prop :=
  (t.blockIdx.x < l.gridDim.x ∧ t.threadIdx.x < l.blockDim.x)
    ∧ (t.blockIdx.y < l.gridDim.y ∧ t.threadIdx.y < l.blockDim.y)
    ∧ (t.blockIdx.z < l.gridDim.z ∧ t.threadIdx.z < l.blockDim.z)

instance (t : Thread) : Decidable (l.Runs t) := inferInstanceAs (Decidable (_ ∧ _))

end Launch

def along (block dim thread : UInt32) : ℕ := block.toNat * dim.toNat + thread.toNat

def linear (l : Launch) (t : Thread) : ℕ :=
  Grid.linear l.width l.height (along t.blockIdx.x l.blockDim.x t.threadIdx.x)
    (along t.blockIdx.y l.blockDim.y t.threadIdx.y) (along t.blockIdx.z l.blockDim.z t.threadIdx.z)

section linear

variable {l : Launch} {t u : Thread} {block block' grid dim thread thread' : UInt32}

theorem along_lt (h : block < grid ∧ thread < dim)
    : along block dim thread < grid.toNat * dim.toNat :=
  Grid.pair_lt (UInt32.lt_iff_toNat_lt.mp h.1) (UInt32.lt_iff_toNat_lt.mp h.2)

theorem along_inj (h : thread < dim) (h' : thread' < dim)
    (heq : along block dim thread = along block' dim thread')
    : block = block' ∧ thread = thread' := by
  rcases Grid.pair_inj (UInt32.lt_iff_toNat_lt.mp h) (UInt32.lt_iff_toNat_lt.mp h') heq with
    ⟨hblock, hthread⟩
  exact ⟨UInt32.toNat_inj.mp hblock, UInt32.toNat_inj.mp hthread⟩

theorem linear_lt (h : l.Runs t) : linear l t < l.total :=
  Grid.linear_lt (along_lt h.1) (along_lt h.2.1) (along_lt h.2.2)

theorem linear_inj (ht : l.Runs t) (hu : l.Runs u) (heq : linear l t = linear l u) : t = u := by
  rcases Grid.linear_inj (along_lt ht.1) (along_lt hu.1) (along_lt ht.2.1) (along_lt hu.2.1) heq
    with ⟨hx, hy, hz⟩
  rcases along_inj ht.1.2 hu.1.2 hx with ⟨hbx, htx⟩
  rcases along_inj ht.2.1.2 hu.2.1.2 hy with ⟨hby, hty⟩
  rcases along_inj ht.2.2.2 hu.2.2.2 hz with ⟨hbz, htz⟩
  rcases t with ⟨⟨_, _, _⟩, ⟨_, _, _⟩⟩
  rcases u with ⟨⟨_, _, _⟩, ⟨_, _, _⟩⟩
  dsimp only at *
  subst_vars
  rfl

theorem toNat_along (h : along block dim thread < 2 ^ 32)
    : (block * dim + thread).toNat = along block dim thread := by
  unfold along at h ⊢
  rw [UInt32.toNat_add, UInt32.toNat_mul, Nat.mod_add_mod, Nat.mod_eq_of_lt h]

theorem toNat_layers {z w h : UInt32} (hz : z.toNat < 2 ^ 31)
    (hwh : z.toNat = 0 ∨ (w.toNat < 2 ^ 31 ∧ h.toNat < 2 ^ 31))
    (hlt : z.toNat * w.toNat * h.toNat < 2 ^ 31)
    : (z.toInt32.toInt64.toUInt64 * w.toInt32.toInt64.toUInt64 * h.toInt32.toInt64.toUInt64).toNat
        =
      z.toNat * w.toNat * h.toNat := by
  rw [UInt64.toNat_mul, UInt64.toNat_mul, Nat.mod_mul_mod, SignExtend.toNat_of_lt hz]
  rcases hwh with hzero | ⟨hw, hh⟩
  . rw [hzero]
    simp only [Nat.zero_mul, Nat.zero_mod]
  . rw [SignExtend.toNat_of_lt hw, SignExtend.toNat_of_lt hh, Nat.mod_eq_of_lt]
    omega

theorem toNat_rows {y w : UInt32} (hlt : y.toNat * w.toNat < 2 ^ 31)
    : (y.toInt32 * w.toInt32).toInt64.toUInt64.toNat = y.toNat * w.toNat := by
  have hmul : (y * w).toNat = y.toNat * w.toNat := by
    rw [UInt32.toNat_mul, Nat.mod_eq_of_lt (by omega)]
  rw [← UInt32.toInt32_mul, SignExtend.toNat_of_lt (by omega), hmul]

theorem axes_le {w h d z : ℕ} (hw : 0 < w) (hh : 0 < h) (hz : z < d) (hle : d * h * w ≤ 2 ^ 31)
    : w ≤ 2 ^ 31 ∧ h ≤ 2 ^ 31 ∧ d ≤ 2 ^ 31 ∧ (z = 0 ∨ (w < 2 ^ 31 ∧ h < 2 ^ 31)) := by
  have hdh : d ≤ d * h := Nat.le_mul_of_pos_right _ hh
  have hhd : h ≤ d * h := Nat.le_mul_of_pos_left _ (by omega)
  have hdhw : d * h ≤ d * h * w := Nat.le_mul_of_pos_right _ hw
  have hwdh : w ≤ d * h * w := Nat.le_mul_of_pos_left _ (by omega)
  refine ⟨by omega, by omega, by omega, ?_⟩
  rcases Nat.eq_zero_or_pos z with hzero | hpos
  . exact .inl hzero
  . -- Two layers, each with at least the threads of a line and of a column.
    have hlayers : 2 * (h * w) ≤ d * h * w := by
      rw [Nat.mul_assoc]
      exact Nat.mul_le_mul_right _ (by omega)
    have hhw : h ≤ h * w := Nat.le_mul_of_pos_right _ hw
    have hwh : w ≤ h * w := Nat.le_mul_of_pos_left _ hh
    exact .inr ⟨by omega, by omega⟩

theorem toNat_getGlobalThreadId (h : l.Runs t) (htotal : l.total ≤ 2 ^ 31)
    : (getGlobalThreadId l t).toNat = linear l t := by
  have hx : _ < l.width := along_lt h.1
  have hy : _ < l.height := along_lt h.2.1
  have hz : _ < l.depth := along_lt h.2.2
  have hlinear := linear_lt h
  rcases axes_le (by omega) (by omega) hz htotal with ⟨hw, hh, hd, hlayers⟩
  have hwidth : (l.gridDim.x * l.blockDim.x).toNat = l.width := by
    rw [UInt32.toNat_mul]
    exact Nat.mod_eq_of_lt (by change l.width < _; omega)
  have hheight : (l.gridDim.y * l.blockDim.y).toNat = l.height := by
    rw [UInt32.toNat_mul]
    exact Nat.mod_eq_of_lt (by change l.height < _; omega)
  have hX := toNat_along (Nat.lt_trans hx (by omega))
  have hY := toNat_along (Nat.lt_trans hy (by omega))
  have hZ := toNat_along (Nat.lt_trans hz (by omega))
  unfold linear Grid.linear at hlinear ⊢
  unfold getGlobalThreadId
  dsimp only
  rw [← hX, ← hY, ← hZ, ← hwidth, ← hheight] at hlinear ⊢
  rw [← hwidth, ← hheight, ← hZ] at hlayers
  rw [UInt64.toNat_add, UInt64.toNat_add, Nat.mod_add_mod,
    toNat_layers (by omega) hlayers (by omega), toNat_rows (by omega),
    SignExtend.toNat_of_lt (by omega), Nat.mod_eq_of_lt (by omega)]

end linear

end Bpftime.GpuArray
