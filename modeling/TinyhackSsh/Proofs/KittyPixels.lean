import TinyhackSsh.Spec.KittyPixels

/-! The copy of an image into its bitmap stays inside both buffers, and every
pixel arrives. -/

namespace Tinyhack.Kitty

/-- Inside a source of `sourceLen` bytes and a bitmap of `size` bytes, and without an overflow. -/
def Effect.Safe (sourceLen size : ℕ) : Effect → Prop
  | .uint32 exact => exact < 2 ^ 32
  | .size exact => exact < 2 ^ 64
  | .read offset => offset < sourceLen
  | .write offset _ => offset < size

def Rgba.channel (p : Rgba) : ℕ → UInt8
  | 0 => p.r
  | 1 => p.g
  | 2 => p.b
  | _ => p.a

def writes (effects : List Effect) : List (ℕ × UInt8) := effects.filterMap Effect.write?

@[simp] theorem writes_append (first second : List Effect) : writes (first ++ second) = writes first ++ writes second :=
  List.filterMap_append

theorem mem_writes_flatMap {ι : Type} {f : ι → List Effect} {is : List ι} {w : ℕ × UInt8} :
    w ∈ writes (is.flatMap f) ↔ ∃ i ∈ is, w ∈ writes (f i) := by
  simp only [writes, List.mem_filterMap, List.mem_flatMap]
  constructor
  · rintro ⟨e, ⟨i, hi, he⟩, hw⟩
    exact ⟨i, hi, e, he, hw⟩
  · rintro ⟨i, hi, e, he, hw⟩
    exact ⟨e, ⟨i, hi, he⟩, hw⟩

section Row

variable {source : ℕ → UInt8} {sourceLen size width dst src x c k d : ℕ}

theorem mul_add_lt (hx : x < width) (hd : d < k) : x * k + d < width * k := by
  have h : (x + 1) * k ≤ width * k := Nat.mul_le_mul_right k hx
  rw [Nat.succ_mul] at h
  omega

theorem mul_add_lt_uint32 (hx : x < width) (hwidth : width * 4 < 2 ^ 32) (hk : k ≤ 4) (hc : c < 4) :
    x * k + c < 2 ^ 32 := by
  have h1 : x * k ≤ x * 4 := Nat.mul_le_mul_left x hk
  have h2 := mul_add_lt hx hc
  omega

theorem index_eq (hx : x < width) (hwidth : width * 4 < 2 ^ 32) (hk : k ≤ 4) (hc : c < 4) :
    index x k c = x * k + c := by
  have h := mul_add_lt_uint32 hx hwidth hk hc
  rw [index, Nat.mod_eq_of_lt (by omega : x * k < 2 ^ 32), Nat.mod_eq_of_lt h]

theorem indexEffects_safe (hx : x < width) (hwidth : width * 4 < 2 ^ 32) (hk : k ≤ 4) (hc : c < 4) :
    ∀ e ∈ indexEffects x k c, e.Safe sourceLen size := by
  have h := mul_add_lt_uint32 hx hwidth hk hc
  have hmod := Nat.mod_le (x * k) (2 ^ 32)
  simp only [indexEffects, List.mem_cons, List.not_mem_nil, or_false, forall_eq_or_imp, forall_eq, Effect.Safe]
  omega

theorem copyByte_safe (hx : x < width) (hwidth : width * 4 < 2 ^ 32) (hk : k ≤ 4) (hc : c < 4) (hd : d < k)
    (hsrc : src + width * k ≤ sourceLen) (hdst : dst + width * 4 ≤ size) :
    ∀ e ∈ copyByte source dst src x c k d, e.Safe sourceLen size := by
  have hread := mul_add_lt hx hd
  have hwrite := mul_add_lt hx hc
  rw [copyByte, index_eq hx hwidth hk (by omega), index_eq hx hwidth le_rfl hc]
  simp only [List.forall_mem_append, List.forall_mem_singleton, Effect.Safe]
  exact ⟨⟨⟨indexEffects_safe hx hwidth hk (by omega), by omega⟩, indexEffects_safe hx hwidth le_rfl hc⟩, by omega⟩

theorem setByte_safe {value : UInt8} (hx : x < width) (hwidth : width * 4 < 2 ^ 32) (hc : c < 4)
    (hdst : dst + width * 4 ≤ size) : ∀ e ∈ setByte dst x c value, e.Safe sourceLen size := by
  have hwrite := mul_add_lt hx hc
  rw [setByte, index_eq hx hwidth le_rfl hc]
  simp only [List.forall_mem_append, List.forall_mem_singleton, Effect.Safe]
  exact ⟨indexEffects_safe hx hwidth le_rfl hc, by omega⟩

theorem pixelEffects_safe {format : Format} (hformat : format ≠ .rgba) (hbpp : format.bpp = some k) (hx : x < width)
    (hwidth : width * 4 < 2 ^ 32) (hsrc : src + width * k ≤ sourceLen) (hdst : dst + width * 4 ≤ size) :
    ∀ e ∈ pixelEffects source format dst src x, e.Safe sourceLen size := by
  have hcopy : ∀ c < 4, ∀ d < k, k ≤ 4 → ∀ e ∈ copyByte source dst src x c k d, e.Safe sourceLen size :=
    fun c hc d hd hk => copyByte_safe hx hwidth hk hc hd hsrc hdst
  have hset : ∀ e ∈ setByte dst x 3 0xFF, e.Safe sourceLen size := setByte_safe hx hwidth (by omega) hdst
  cases format with
  | rgba => exact absurd rfl hformat
  | other => simp [Format.bpp] at hbpp
  | rgb =>
    obtain rfl : 3 = k := by simpa [Format.bpp] using hbpp
    simp only [pixelEffects, List.forall_mem_append]
    exact ⟨⟨⟨hcopy 0 (by omega) 0 (by omega) (by omega), hcopy 1 (by omega) 1 (by omega) (by omega)⟩,
      hcopy 2 (by omega) 2 (by omega) (by omega)⟩, hset⟩
  | grayAlpha =>
    obtain rfl : 2 = k := by simpa [Format.bpp] using hbpp
    simp only [pixelEffects, List.forall_mem_append]
    exact ⟨⟨⟨hcopy 2 (by omega) 0 (by omega) (by omega), hcopy 1 (by omega) 0 (by omega) (by omega)⟩,
      hcopy 0 (by omega) 0 (by omega) (by omega)⟩, hcopy 3 (by omega) 1 (by omega) (by omega)⟩
  | gray =>
    obtain rfl : 1 = k := by simpa [Format.bpp] using hbpp
    simp only [pixelEffects, List.forall_mem_append]
    exact ⟨⟨⟨hcopy 2 (by omega) 0 (by omega) (by omega), hcopy 1 (by omega) 0 (by omega) (by omega)⟩,
      hcopy 0 (by omega) 0 (by omega) (by omega)⟩, hset⟩

theorem memcpy_safe {n : ℕ} (hsrc : src + n ≤ sourceLen) (hdst : dst + n ≤ size) :
    ∀ e ∈ memcpy source dst src n, e.Safe sourceLen size := by
  intro e he
  obtain ⟨i, hi, hmem⟩ := List.mem_flatMap.mp he
  have hlt : i < n := List.mem_range.mp hi
  simp only [List.mem_cons, List.not_mem_nil, or_false] at hmem
  rcases hmem with rfl | rfl
  · show src + i < sourceLen
    omega
  · show dst + i < size
    omega

theorem rowEffects_safe {format : Format} (hbpp : format.bpp = some k) (hwidth : width * 4 < 2 ^ 32)
    (hsrc : src + width * k ≤ sourceLen) (hdst : dst + width * 4 ≤ size) :
    ∀ e ∈ rowEffects source format width dst src, e.Safe sourceLen size := by
  have hlt : width * 4 < 2 ^ 64 := by omega
  unfold rowEffects
  by_cases hformat : format = .rgba
  · subst hformat
    obtain rfl : 4 = k := by simpa [Format.bpp] using hbpp
    rw [if_pos rfl, Nat.mod_eq_of_lt hlt, List.forall_mem_cons]
    exact ⟨hlt, memcpy_safe hsrc hdst⟩
  · rw [if_neg hformat]
    intro e he
    obtain ⟨x, hx, hmem⟩ := List.mem_flatMap.mp he
    exact pixelEffects_safe hformat hbpp (List.mem_range.mp hx) hwidth hsrc hdst e hmem

/-! The writes of a row. -/

theorem writes_copyByte (hx : x < width) (hwidth : width * 4 < 2 ^ 32) (hk : k ≤ 4) (hc : c < 4) (hd : d < 4) :
    writes (copyByte source dst src x c k d) = [(dst + x * 4 + c, source (src + (x * k + d)))] := by
  rw [copyByte, index_eq hx hwidth hk hd, index_eq hx hwidth le_rfl hc, Nat.add_assoc dst]
  rfl

theorem writes_setByte {value : UInt8} (hx : x < width) (hwidth : width * 4 < 2 ^ 32) (hc : c < 4) :
    writes (setByte dst x c value) = [(dst + x * 4 + c, value)] := by
  rw [setByte, index_eq hx hwidth le_rfl hc, Nat.add_assoc dst]
  rfl

/-- The order in which a chained assignment writes. -/
theorem perm_chained {α : Type} (a b c d : α) : [c, b, a, d].Perm [a, b, c, d] := by
  have hlast : [c, b, a].Perm [a, b, c] := List.reverse_perm [a, b, c]
  exact hlast.append_right [d]

/-- The four channels of one pixel are written, each once. -/
theorem writes_pixelEffects {format : Format} (hformat : format ≠ .rgba) (hbpp : format.bpp = some k) (hx : x < width)
    (hwidth : width * 4 < 2 ^ 32) :
    (writes (pixelEffects source format dst src x)).Perm ((List.range 4).map fun c =>
      (dst + x * 4 + c, (format.pixel (fun j => source (src + j)) x).channel c)) := by
  have hcopy : ∀ c < 4, ∀ d < 4, ∀ k ≤ 4, writes (copyByte source dst src x c k d) =
      [(dst + x * 4 + c, source (src + (x * k + d)))] :=
    fun c hc d hd k hk => writes_copyByte hx hwidth hk hc hd
  have hset : writes (setByte dst x 3 0xFF) = [(dst + x * 4 + 3, 0xFF)] := writes_setByte hx hwidth (by omega)
  cases format with
  | rgba => exact absurd rfl hformat
  | other => simp [Format.bpp] at hbpp
  | rgb =>
    simp only [pixelEffects, writes_append, hset]
    rw [hcopy 0 (by omega) 0 (by omega) 3 (by omega), hcopy 1 (by omega) 1 (by omega) 3 (by omega),
      hcopy 2 (by omega) 2 (by omega) 3 (by omega)]
    exact List.Perm.refl _
  | grayAlpha =>
    simp only [pixelEffects, writes_append]
    rw [hcopy 2 (by omega) 0 (by omega) 2 (by omega), hcopy 1 (by omega) 0 (by omega) 2 (by omega),
      hcopy 0 (by omega) 0 (by omega) 2 (by omega), hcopy 3 (by omega) 1 (by omega) 2 (by omega)]
    exact perm_chained _ _ _ _
  | gray =>
    simp only [pixelEffects, writes_append, hset]
    rw [hcopy 2 (by omega) 0 (by omega) 1 (by omega), hcopy 1 (by omega) 0 (by omega) 1 (by omega),
      hcopy 0 (by omega) 0 (by omega) 1 (by omega), Nat.mul_one, Nat.add_zero]
    exact perm_chained _ _ _ _

theorem mem_writes_memcpy {n : ℕ} {w : ℕ × UInt8} :
    w ∈ writes (memcpy source dst src n) ↔ ∃ i < n, w = (dst + i, source (src + i)) := by
  rw [memcpy, mem_writes_flatMap]
  simp [writes, Effect.write?, eq_comm]

theorem channel_rgba (f : ℕ → UInt8) (hc : c < 4) : (Format.rgba.pixel f x).channel c = f (x * 4 + c) := by
  have h : c = 0 ∨ c = 1 ∨ c = 2 ∨ c = 3 := by omega
  rcases h with rfl | rfl | rfl | rfl <;> rfl

theorem mem_writes_rowEffects {format : Format} (hbpp : format.bpp = some k) (hwidth : width * 4 < 2 ^ 32)
    {w : ℕ × UInt8} :
    w ∈ writes (rowEffects source format width dst src) ↔
      ∃ x < width, ∃ c < 4, w = (dst + x * 4 + c, (format.pixel (fun j => source (src + j)) x).channel c) := by
  by_cases hformat : format = .rgba
  · subst hformat
    have hrow : writes (rowEffects source .rgba width dst src) = writes (memcpy source dst src (width * 4)) := by
      rw [rowEffects, if_pos rfl, Nat.mod_eq_of_lt (by omega : width * 4 < 2 ^ 64)]
      rfl
    rw [hrow, mem_writes_memcpy]
    constructor
    · rintro ⟨i, hi, rfl⟩
      refine ⟨i / 4, by omega, i % 4, by omega, ?_⟩
      have hi' : i / 4 * 4 + i % 4 = i := Nat.div_add_mod' i 4
      rw [channel_rgba _ (by omega), hi', Nat.add_assoc, hi']
    · rintro ⟨x, hx, c, hc, rfl⟩
      exact ⟨x * 4 + c, by omega, by rw [channel_rgba _ hc, Nat.add_assoc]⟩
  · rw [rowEffects, if_neg hformat, mem_writes_flatMap]
    simp only [List.mem_range]
    refine exists_congr fun x => and_congr_right fun hx => ?_
    rw [(writes_pixelEffects hformat hbpp hx hwidth).mem_iff, List.mem_map]
    simp only [List.mem_range]
    exact exists_congr fun c => and_congr_right fun _ => eq_comm

end Row

section Copy

variable {source : ℕ → UInt8} {format : Format} {width height stride sourceLen bpp x y c : ℕ}

theorem bpp_le_four (hbpp : format.bpp = some bpp) : bpp ≤ 4 := by
  cases format <;> simp [Format.bpp] at hbpp <;> omega

/-- Row `y` of a block of rows lies inside it. -/
theorem row_end_le {n row : ℕ} (hy : y < height) (hrow : row ≤ n) : y * n + row ≤ n * height := by
  have h : (y + 1) * n ≤ height * n := Nat.mul_le_mul_right n hy
  rw [Nat.succ_mul, Nat.mul_comm height] at h
  omega

theorem copyEffects_safe (hbpp : format.bpp = some bpp) (hstride : width * 4 ≤ stride) (hstride32 : stride < 2 ^ 32)
    (hheight : height < 2 ^ 32) (hsource : width * bpp * height ≤ sourceLen) (hlen : sourceLen < 2 ^ 64) :
    ∀ e ∈ copyEffects source format width height (width * bpp) stride, e.Safe sourceLen (stride * height) := by
  have hsize : stride * height < 2 ^ 64 := by
    calc stride * height < 2 ^ 32 * 2 ^ 32 := Nat.mul_lt_mul'' hstride32 hheight
      _ = 2 ^ 64 := by norm_num
  intro e he
  obtain ⟨y, hy, hmem⟩ := List.mem_flatMap.mp he
  have hsrc := row_end_le (List.mem_range.mp hy) (le_refl (width * bpp))
  have hdst := row_end_le (List.mem_range.mp hy) hstride
  rw [Nat.mod_eq_of_lt (by omega : y * stride < 2 ^ 64),
    Nat.mod_eq_of_lt (by omega : y * (width * bpp) < 2 ^ 64)] at hmem
  rcases List.mem_append.mp hmem with hmem | hmem
  · simp only [List.mem_cons, List.not_mem_nil, or_false] at hmem
    rcases hmem with rfl | rfl
    · show y * (width * bpp) < 2 ^ 64
      omega
    · show y * stride < 2 ^ 64
      omega
  · exact rowEffects_safe hbpp (by omega) (by omega) (by omega) e hmem

/-- A row of the source holds its pixels. -/
theorem pixel_row (hbpp : format.bpp = some bpp) :
    format.pixel (fun j => source (y * (width * bpp) + j)) x = format.pixel source (y * width + x) := by
  have hfirst : y * (width * bpp) + x * bpp = (y * width + x) * bpp := by ring
  have hpos : ∀ d, y * (width * bpp) + (x * bpp + d) = (y * width + x) * bpp + d := fun d => by ring
  cases format with
  | other => simp [Format.bpp] at hbpp
  | rgba =>
    obtain rfl : 4 = bpp := by simpa [Format.bpp] using hbpp
    simp only [Format.pixel, hpos, hfirst]
  | rgb =>
    obtain rfl : 3 = bpp := by simpa [Format.bpp] using hbpp
    simp only [Format.pixel, hpos, hfirst]
  | grayAlpha =>
    obtain rfl : 2 = bpp := by simpa [Format.bpp] using hbpp
    simp only [Format.pixel, hpos, hfirst]
  | gray =>
    obtain rfl : 1 = bpp := by simpa [Format.bpp] using hbpp
    simp only [Format.pixel, Nat.mul_one]

theorem mem_writes_copyEffects (hbpp : format.bpp = some bpp) (hstride : width * 4 ≤ stride)
    (hstride32 : stride < 2 ^ 32) (hheight : height < 2 ^ 32) (hsource : width * bpp * height < 2 ^ 64)
    {w : ℕ × UInt8} :
    w ∈ writes (copyEffects source format width height (width * bpp) stride) ↔
      ∃ y < height, ∃ x < width, ∃ c < 4,
        w = (y * stride + x * 4 + c, (format.pixel source (y * width + x)).channel c) := by
  have hsize : stride * height < 2 ^ 64 := by
    calc stride * height < 2 ^ 32 * 2 ^ 32 := Nat.mul_lt_mul'' hstride32 hheight
      _ = 2 ^ 64 := by norm_num
  rw [copyEffects, mem_writes_flatMap]
  simp only [List.mem_range]
  refine exists_congr fun y => and_congr_right fun hy => ?_
  have hsrc := row_end_le hy (le_refl (width * bpp))
  have hdst := row_end_le hy hstride
  rw [Nat.mod_eq_of_lt (by omega : y * stride < 2 ^ 64), Nat.mod_eq_of_lt (by omega : y * (width * bpp) < 2 ^ 64)]
  change w ∈ writes (rowEffects source format width (y * stride) (y * (width * bpp))) ↔ _
  rw [mem_writes_rowEffects hbpp (by omega)]
  simp only [pixel_row hbpp]

/-- The offset of a channel determines its row, column and number. -/
theorem offset_inj {x' y' c' : ℕ} (hstride : width * 4 ≤ stride) (hx : x < width) (hx' : x' < width) (hc : c < 4)
    (hc' : c' < 4) (h : y' * stride + x' * 4 + c' = y * stride + x * 4 + c) : y' = y ∧ x' = x ∧ c' = c := by
  have hrow : ∀ z r, r < stride → (z * stride + r) / stride = z := fun z r hr => by
    rw [Nat.mul_comm, Nat.mul_add_div (by omega), Nat.div_eq_of_lt hr, Nat.add_zero]
  have hy : y' = y := by
    rw [← hrow y' (x' * 4 + c') (by omega), ← hrow y (x * 4 + c) (by omega), ← Nat.add_assoc, ← Nat.add_assoc, h]
  subst hy
  omega

theorem bitmapPixel_copyEffects (mem : ℕ → UInt8) (hbpp : format.bpp = some bpp) (hstride : width * 4 ≤ stride)
    (hstride32 : stride < 2 ^ 32) (hheight : height < 2 ^ 32) (hsource : width * bpp * height < 2 ^ 64)
    (hx : x < width) (hy : y < height) :
    bitmapPixel (destination mem (copyEffects source format width height (width * bpp) stride)) stride x y =
      format.pixel source (y * width + x) := by
  have hmem : ∀ w, w ∈ writes (copyEffects source format width height (width * bpp) stride) ↔ _ :=
    fun _ => mem_writes_copyEffects hbpp hstride hstride32 hheight hsource
  have hchannel : ∀ c < 4,
      destination mem (copyEffects source format width height (width * bpp) stride) (y * stride + x * 4 + c) =
        (format.pixel source (y * width + x)).channel c := by
    intro c hc
    refine IndexedWrites.apply_of_agree ((hmem _).mpr ⟨y, hy, x, hx, c, hc, rfl⟩) ?_
    intro w hw hoffset
    obtain ⟨y', -, x', hx', c', hc', rfl⟩ := (hmem w).mp hw
    obtain ⟨rfl, rfl, rfl⟩ := offset_inj hstride hx hx' hc hc' hoffset
    rfl
  rw [bitmapPixel, ← Nat.add_zero (y * stride + x * 4), hchannel 0 (by omega), hchannel 1 (by omega),
    hchannel 2 (by omega), hchannel 3 (by omega)]
  rfl

end Copy

/-! One call. -/

section Call

variable {source : ℕ → UInt8} {call : CopyCall}

/-- What the checks before the loops establish. -/
structure Checked (call : CopyCall) (info : AndroidBitmapInfo) (bpp : ℕ) : Prop where
  bitmap : call.bitmap = true
  source : call.source = true
  width_ne : call.width.toNat ≠ 0
  height_ne : call.height.toNat ≠ 0
  format : call.format.bpp = some bpp
  length : call.width.toNat * bpp * call.height.toNat ≤ call.sourceLen.toNat
  reported : call.info = some info
  rgba8888 : info.rgba8888 = true
  width : info.width = call.width
  height : info.height = call.height
  locks : call.locks = true

theorem width_mul_bpp_lt {bpp : ℕ} (hbpp : call.format.bpp = some bpp) : call.width.toNat * bpp < 2 ^ 64 := by
  have hwidth : call.width.toNat < 2 ^ 32 := call.width.toNat_lt
  have hle : call.width.toNat * bpp ≤ call.width.toNat * 4 := Nat.mul_le_mul_left _ (bpp_le_four hbpp)
  omega

theorem copyKittyPixels_of_checked {info : AndroidBitmapInfo} {bpp : ℕ} (h : Checked call info bpp) :
    copyKittyPixels source call =
      (.size (call.width.toNat * bpp) :: copyEffects source call.format call.width.toNat call.height.toNat
        (call.width.toNat * bpp) info.stride.toNat, true) := by
  have hlength : ¬ call.width.toNat * bpp > call.sourceLen.toNat / call.height.toNat :=
    Nat.not_lt.mpr ((Nat.le_div_iff_mul_le (Nat.pos_of_ne_zero h.height_ne)).mpr h.length)
  have hmod := Nat.mod_eq_of_lt (width_mul_bpp_lt h.format)
  simp only [copyKittyPixels, h.bitmap, h.source, h.width_ne, h.height_ne, h.format, h.reported, h.rgba8888, h.width,
    h.height, h.locks, hmod, if_neg hlength]
  simp

/-- A call that answers false has computed the stride of the source, if anything. -/
theorem copyKittyPixels_of_not_checked (source : ℕ → UInt8) (h : ∀ info bpp, ¬ Checked call info bpp) :
    (copyKittyPixels source call).2 = false ∧ ∀ e ∈ (copyKittyPixels source call).1, ∃ n < 2 ^ 64, e = .size n := by
  unfold copyKittyPixels
  split
  · exact ⟨rfl, fun e he => absurd he List.not_mem_nil⟩
  · rename_i hnull
    split
    · exact ⟨rfl, fun e he => absurd he List.not_mem_nil⟩
    · rename_i bpp hbpp
      have hone : ∀ e ∈ [Effect.size (call.width.toNat * bpp)], ∃ n < 2 ^ 64, e = .size n := fun e he =>
        ⟨_, width_mul_bpp_lt hbpp, List.mem_singleton.mp he⟩
      dsimp only
      split
      · exact ⟨rfl, hone⟩
      · rename_i hlength
        split
        · exact ⟨rfl, hone⟩
        · rename_i info hinfo
          split
          · exact ⟨rfl, hone⟩
          · rename_i hchecks
            refine absurd ?_ (h info bpp)
            simp only [Bool.or_eq_true, Bool.not_eq_true', decide_eq_true_eq, not_or, Bool.not_eq_false, not_not]
              at hnull hchecks
            obtain ⟨⟨⟨hb, hs⟩, hw⟩, hh⟩ := hnull
            obtain ⟨⟨⟨hrgba, hwidth⟩, hheight⟩, hlocks⟩ := hchecks
            rw [Nat.mod_eq_of_lt (width_mul_bpp_lt hbpp), Nat.not_lt,
              Nat.le_div_iff_mul_le (Nat.pos_of_ne_zero hh)] at hlength
            exact ⟨hb, hs, hw, hh, hbpp, hlength, hinfo, hrgba, hwidth, hheight, hlocks⟩

/-- `copy_kitty_pixels_to_bitmap`, for a bitmap that reports `info`: it reads inside the source, writes inside the
bitmap, no operation overflows, and when it answers true every pixel has the value its format gives it. -/
theorem copyKittyPixels_correct (source mem : ℕ → UInt8) (call : CopyCall) (info : AndroidBitmapInfo)
    (hinfo : call.info = some info) (hstride : call.width.toNat * 4 ≤ info.stride.toNat) :
    (∀ e ∈ (copyKittyPixels source call).1, e.Safe call.sourceLen.toNat (info.stride.toNat * info.height.toNat)) ∧
    ((copyKittyPixels source call).2 = true → ∀ x < call.width.toNat, ∀ y < call.height.toNat,
      bitmapPixel (destination mem (copyKittyPixels source call).1) info.stride.toNat x y =
        call.format.pixel source (y * call.width.toNat + x)) := by
  by_cases hchecked : ∃ info bpp, Checked call info bpp
  · obtain ⟨info', bpp, h⟩ := hchecked
    obtain rfl : info' = info := Option.some.inj (h.reported.symm.trans hinfo)
    have hlen : call.sourceLen.toNat < 2 ^ 64 := call.sourceLen.toNat_lt
    rw [copyKittyPixels_of_checked h, h.height]
    refine ⟨?_, fun _ x hx y hy => ?_⟩
    · rw [List.forall_mem_cons]
      exact ⟨width_mul_bpp_lt h.format, copyEffects_safe h.format hstride info'.stride.toNat_lt call.height.toNat_lt
        h.length hlen⟩
    · exact bitmapPixel_copyEffects mem h.format hstride info'.stride.toNat_lt call.height.toNat_lt
        (lt_of_le_of_lt h.length hlen) hx hy
  · simp only [not_exists] at hchecked
    obtain ⟨hfalse, hsizes⟩ := copyKittyPixels_of_not_checked source hchecked
    rw [hfalse]
    refine ⟨fun e he => ?_, fun h => absurd h Bool.false_ne_true⟩
    obtain ⟨n, hn, rfl⟩ := hsizes e he
    exact hn

theorem copyKittyPixels_correct_gray :
    (∀ e ∈ (copyKittyPixels (fun _ => 7) ⟨true, true, 6, 3, 2, .gray, some ⟨true, 3, 2, 16⟩, true⟩).1, e.Safe 6 32) ∧
    bitmapPixel (destination (fun _ => 0)
      (copyKittyPixels (fun _ => 7) ⟨true, true, 6, 3, 2, .gray, some ⟨true, 3, 2, 16⟩, true⟩).1) 16 2 1 =
        ⟨7, 7, 7, 0xFF⟩ := by
  have h := copyKittyPixels_correct (fun _ => 7) (fun _ => 0) ⟨true, true, 6, 3, 2, .gray, some ⟨true, 3, 2, 16⟩, true⟩
    ⟨true, 3, 2, 16⟩ rfl (by decide)
  exact ⟨h.1, h.2 (by decide) 2 (by decide) 1 (by decide)⟩

theorem copyKittyPixels_true_iff (source : ℕ → UInt8) :
    (copyKittyPixels source call).2 = true ↔ ∃ info bpp, Checked call info bpp := by
  constructor
  · intro h
    by_contra hnot
    simp only [not_exists] at hnot
    rw [(copyKittyPixels_of_not_checked source hnot).1] at h
    exact Bool.false_ne_true h
  · rintro ⟨info, bpp, h⟩
    rw [copyKittyPixels_of_checked h]

theorem copyKittyPixelsToBitmap_isSome_iff {n : Native} {r imageId : ℕ} {image : Image} {b : Bitmap} {locks : Bool}
    (hr : n.refs r = some b) :
    (copyKittyPixelsToBitmap n (some r) imageId image locks).isSome = true ↔
      ∃ bpp, image.format.bpp = some bpp ∧ image.width ≠ 0 ∧ image.height ≠ 0 ∧
        image.width * bpp * image.height ≤ image.dataLen ∧ b.width = image.width ∧ b.height = image.height ∧
        locks = true := by
  cases hbpp : image.format.bpp with
  | none => simp [copyKittyPixelsToBitmap, hbpp]
  | some bpp =>
    simp only [copyKittyPixelsToBitmap, hbpp, hr, Option.some.injEq, exists_eq_left']
    split_ifs with hempty hsize
    · simp only [Option.isSome_none, Bool.false_eq_true, false_iff]
      rintro ⟨hw, hh, hlen, -⟩
      rw [← Nat.le_div_iff_mul_le (Nat.pos_of_ne_zero hh)] at hlen
      omega
    · simp only [not_or, Nat.not_lt] at hempty
      rw [Nat.le_div_iff_mul_le (Nat.pos_of_ne_zero hempty.2.1)] at hempty
      simp [hempty, hsize]
    · simp only [Option.isSome_none, Bool.false_eq_true, false_iff]
      rintro ⟨-, -, -, hall⟩
      exact hsize hall

/-- The export's cache records a copy for exactly the calls that answer true. -/
theorem copyKittyPixels_iff_cached {n : Native} {r imageId : ℕ} {image : Image} {b : Bitmap} (hr : n.refs r = some b)
    {info : AndroidBitmapInfo}
    (hbitmap : b.width = info.width.toNat ∧ b.height = info.height.toNat ∧ info.rgba8888 = true)
    (hcall : call = ⟨true, true, call.sourceLen, call.width, call.height, image.format, some info, call.locks⟩)
    (himage : image.width = call.width.toNat ∧ image.height = call.height.toNat ∧
      image.dataLen = call.sourceLen.toNat) :
    (copyKittyPixelsToBitmap n (some r) imageId image call.locks).isSome = (copyKittyPixels source call).2 := by
  obtain ⟨hbw, hbh, hrgba⟩ := hbitmap
  obtain ⟨hwidth, hheight, hlen⟩ := himage
  have hformat : call.format = image.format := by rw [hcall]
  have hinfo : call.info = some info := by rw [hcall]
  rw [Bool.eq_iff_iff, copyKittyPixelsToBitmap_isSome_iff hr, copyKittyPixels_true_iff, hwidth, hheight, hlen, hbw, hbh]
  constructor
  · rintro ⟨bpp, hbpp, hw, hh, hlength, hiw, hih, hlocks⟩
    exact ⟨info, bpp, by rw [hcall], by rw [hcall], hw, hh, hformat ▸ hbpp, hlength, hinfo, hrgba,
      UInt32.toNat_inj.mp hiw, UInt32.toNat_inj.mp hih, hlocks⟩
  · rintro ⟨info', bpp, h⟩
    obtain rfl : info = info' := Option.some.inj (hinfo.symm.trans h.reported)
    exact ⟨bpp, hformat ▸ h.format, h.width_ne, h.height_ne, h.length, congrArg _ h.width, congrArg _ h.height, h.locks⟩

end Call

end Tinyhack.Kitty
