import TinyhackSsh.Proofs.KittyCache

/-! When `update_kitty_graphics` stores its placements: the bitmaps of the cache have
the sizes that their entries say, so that an image which is complete is copied into
its bitmap, and a call all of whose images are complete is not given up. -/

namespace Tinyhack.Kitty

variable {n n' : Native} {c c' d : KittyBitmapCache} {call : Call} {image : Image} {p : Placement} {id r : ℕ}

/-- All of the image has arrived, it is within the limits, and its bitmap can be made and locked. -/
def Placement.ready (p : Placement) (image : Image) : Bool :=
  image.resident && image.width ≠ 0 && image.height ≠ 0 &&
  image.width ≤ MAX_BITMAP_DIMENSION && image.height ≤ MAX_BITMAP_DIMENSION &&
  image.width * image.height * 4 ≤ MAX_BITMAP_BYTES &&
  (image.format.bpp.any fun bpp => image.width * bpp ≤ image.dataLen / image.height) && p.creates && p.locks

/-- Every image that is visible is complete. -/
def Call.complete (call : Call) : Bool :=
  call.placements.all fun p => p.renderInfo.isNone || (call.images p.imageId).all fun image => p.ready image

def Sized (n : Native) : Prop :=
  ∀ c ∈ n.cache, ∀ r, c.bitmap = some r → ∀ b, n.refs r = some b → b.width = c.width ∧ b.height = c.height

theorem sized_init : Sized Native.init := by
  simp [Sized, Native.init]

/-- Entries may lose their bitmaps, and bitmaps may be written to. -/
theorem Sized.shrink (h : Sized n)
    (hcache : ∀ d ∈ n'.cache, ∀ r, d.bitmap = some r →
      ∃ c ∈ n.cache, c.bitmap = some r ∧ c.width = d.width ∧ c.height = d.height)
    (hrefs : ∀ r b, n'.refs r = some b → ∃ b₀, n.refs r = some b₀ ∧ b₀.width = b.width ∧ b₀.height = b.height) :
    Sized n' := by
  intro d hd r hr b hb
  obtain ⟨c, hc, hcr, hw, hh⟩ := hcache d hd r hr
  obtain ⟨b₀, hb₀, hbw, hbh⟩ := hrefs r b hb
  obtain ⟨hw', hh'⟩ := h c hc r hcr b₀ hb₀
  exact ⟨hbw ▸ hw' ▸ hw, hbh ▸ hh' ▸ hh⟩

theorem eraseFront_sized (h : Sized n) : Sized n.eraseFront := by
  refine h.shrink (fun d hd r hr => ⟨d, ?_, hr, rfl, rfl⟩) fun r b hb => ⟨b, ?_, rfl, rfl⟩
  · rw [eraseFront_cache] at hd
    exact List.mem_of_mem_tail hd
  · cases hcache : n.cache with
    | nil => simpa [Native.eraseFront, hcache] using hb
    | cons front rest =>
      rw [eraseFront_refs hcache] at hb
      split_ifs at hb
      exact hb

theorem cacheEntry_sized (h : Sized n) (id : ℕ) : Sized (cacheEntry n id).1 := by
  unfold cacheEntry
  cases n.cache.find? (fun c => c.imageId = id) with
  | some c => exact h
  | none =>
    dsimp only
    have hfront : Sized (if n.cache.length ≥ 2 then n.eraseFront else n) := by
      split_ifs
      · exact eraseFront_sized h
      · exact h
    refine hfront.shrink (fun d hd r hr => ?_) fun r b hb => ⟨b, hb, rfl, rfl⟩
    obtain hold | hnew := List.mem_append.mp hd
    · exact ⟨d, hold, hr, rfl, rfl⟩
    · rw [List.mem_singleton.mp hnew] at hr
      cases hr

/-- The entry is written anew, with the same bitmap or without one. -/
theorem Sized.put (h : Sized n) (hc : c ∈ n.cache) (hbitmap : ∀ r, c'.bitmap = some r → c.bitmap = some r)
    (hw : c'.width = c.width) (hh : c'.height = c.height) : Sized (n.put c') := by
  refine h.shrink (fun d hd r hr => ?_) fun r b hb => ⟨b, hb, rfl, rfl⟩
  obtain ⟨rfl, -⟩ | ⟨hd, -⟩ := mem_put.mp hd
  · exact ⟨c, hc, hbitmap r hr, hw.symm, hh.symm⟩
  · exact ⟨d, hd, hr, rfl, rfl⟩

theorem dropResized_sized (h : Sized n) (hc : c ∈ n.cache) (width height : ℕ) :
    Sized (dropResized n c width height).1 := by
  unfold dropResized
  cases hr : c.bitmap with
  | none => exact h
  | some r =>
    dsimp only
    split_ifs
    · have hdelete : Sized (n.deleteGlobalRef r) := by
        refine h.shrink (fun d hd r hr => ⟨d, hd, hr, rfl, rfl⟩) fun r' b hb => ⟨b, ?_, rfl, rfl⟩
        simp only [Native.deleteGlobalRef, Function.update_apply] at hb
        split_ifs at hb
        exact hb
      exact hdelete.put hc (fun r hr => by cases hr) rfl rfl
    · exact h

theorem ensureBitmap_sized (h : Sized n) (howns : Owns n) (width height : ℕ) (creates : Bool) :
    Sized (ensureBitmap n c width height creates).1 := by
  unfold ensureBitmap
  cases c.bitmap with
  | some r => exact h
  | none =>
    dsimp only
    split_ifs
    · intro d hd r hr b hb
      obtain ⟨rfl, -⟩ | ⟨hd, -⟩ := mem_put.mp hd
      · obtain rfl := Option.some.inj hr
        obtain rfl : Bitmap.mk width height none = b := by
          simpa [Native.put, Native.newGlobalRef] using hb
        exact ⟨rfl, rfl⟩
      · have hlt := (howns.live d hd r hr).1
        refine h d hd r hr b ?_
        rw [← hb]
        exact (Function.update_of_ne hlt.ne _ _).symm
    · exact h

theorem bitmapCacheFor_sized (h : Sized n) (howns : Owns n) (id width height : ℕ) (creates : Bool) :
    Sized (bitmapCacheFor n id width height creates).1 := by
  unfold bitmapCacheFor
  split_ifs
  · exact h
  · have henter := cacheEntry_enters howns id
    have hdrop := dropResized_reworks henter.owns henter.mem width height
    exact ensureBitmap_sized (dropResized_sized (cacheEntry_sized h id) henter.mem width height) hdrop.owns
      width height creates

theorem copy_sized (h : Sized n) {bitmap : Option ℕ} {locks : Bool}
    (he : copyKittyPixelsToBitmap n bitmap id image locks = some n') : Sized n' ∧ n'.cache = n.cache := by
  unfold copyKittyPixelsToBitmap at he
  split at he
  next r _ =>
    split_ifs at he
    split at he
    next => cases he
    next b hb =>
      split_ifs at he
      cases he
      refine ⟨h.shrink (fun d hd r hr => ⟨d, hd, hr, rfl, rfl⟩) fun r' b' hb' => ?_, rfl⟩
      simp only [Function.update_apply] at hb'
      split_ifs at hb' with heq
      · obtain rfl := Option.some.inj hb'
        exact ⟨b, heq ▸ hb, rfl, rfl⟩
      · exact ⟨b', hb', rfl, rfl⟩
  next => cases he

theorem currentBitmap_sized (h : Sized n) (howns : Owns n) {o : Option ℕ}
    (he : currentBitmap n p image = (n', o)) : Sized n' := by
  have hfor := bitmapCacheFor_sized h howns p.imageId image.width image.height p.creates
  obtain ⟨-, rfl⟩ | ⟨-, hbc⟩ | ⟨n₁, c, hbc, hcase⟩ := currentBitmap_cases he
  · exact h
  · rw [hbc] at hfor
    exact hfor
  · rw [hbc] at hfor
    obtain ⟨-, rfl⟩ | ⟨-, -, rfl⟩ | ⟨-, -, n₂, hcopy, rfl⟩ := hcase
    · exact hfor
    · exact hfor
    · obtain ⟨hsized, hcache⟩ := copy_sized hfor hcopy
      obtain ⟨n₀, c₀, -, hwork, -⟩ := bitmapCacheFor_some howns hbc
      have hmem : c ∈ n₂.cache := hcache ▸ hwork.mem
      exact hsized.put hmem (fun _ hr => hr) rfl rfl

theorem body_sized (call : Call) {l : Loop} (h : Sized l.native) (howns : Owns l.native) (p : Placement) :
    Sized (call.body l p).native := by
  obtain ⟨-, hbody⟩ | ⟨-, image, -, ⟨n, hcur, hbody⟩ | ⟨n, r, info, hcur, hbody⟩⟩ := body_cases call l p
  · rw [hbody]
    exact h
  all_goals
    rw [hbody]
    exact currentBitmap_sized h howns hcur

theorem loop_sized (call : Call) {l : Loop} (h : Sized l.native) (howns : Owns l.native) (ps : List Placement) :
    Sized (call.loop l ps).native := by
  induction ps generalizing l with
  | nil => exact h
  | cons p ps ih =>
    rw [Call.loop]
    split_ifs
    · exact ih (body_sized call h howns p) (body_keeps call howns p).1
    · exact h

theorem update_sized (h : Sized n) (howns : Owns n) (call : Call) : Sized (updateKittyGraphics n call).1 := by
  unfold updateKittyGraphics
  dsimp only
  split_ifs
  · exact h
  all_goals exact loop_sized call h howns _

/-- A complete image gets its bitmap. -/
theorem currentBitmap_ready (h : Sized n) (howns : Owns n) (hready : p.ready image = true) :
    ∃ n' r, currentBitmap n p image = (n', some r) := by
  simp only [Placement.ready, Bool.and_eq_true, decide_eq_true_eq] at hready
  obtain ⟨⟨⟨⟨⟨⟨⟨⟨hresident, hw⟩, hh⟩, hwmax⟩, hhmax⟩, hbytes⟩, hbpp⟩, hcreates⟩, hlocks⟩ := hready
  obtain ⟨bpp, hformat, hstride⟩ := (Option.any_eq_true _ _).mp hbpp
  have hfor : ∃ n₁ c, bitmapCacheFor n p.imageId image.width image.height p.creates = (n₁, some c) := by
    unfold bitmapCacheFor
    rw [if_neg (by omega)]
    dsimp only
    unfold ensureBitmap
    cases (dropResized _ _ image.width image.height).2.bitmap with
    | some r => exact ⟨_, _, rfl⟩
    | none =>
      dsimp only
      rw [if_pos hcreates]
      exact ⟨_, _, rfl⟩
  obtain ⟨n₁, c, hbc⟩ := hfor
  obtain ⟨n₀, c₀, -, hwork, ⟨hne, hcw, hch⟩, -⟩ := bitmapCacheFor_some howns hbc
  obtain ⟨r, hr⟩ := Option.ne_none_iff_exists'.mp hne
  obtain ⟨-, b, hb, -⟩ := hwork.owns.live c hwork.mem r hr
  have hsized := bitmapCacheFor_sized h howns p.imageId image.width image.height p.creates
  rw [hbc] at hsized
  obtain ⟨hbw, hbh⟩ := hsized c hwork.mem r hr b hb
  unfold currentBitmap
  rw [if_neg (by simp [hresident, hw, hh]), hbc]
  dsimp only
  split_ifs with hgen
  · have hcopy : ∃ n₂, copyKittyPixelsToBitmap n₁ c.bitmap p.imageId image p.locks = some n₂ := by
      unfold copyKittyPixelsToBitmap
      rw [hr, hformat]
      dsimp only
      rw [if_neg (by have := of_decide_eq_true hstride; omega), hb]
      dsimp only
      rw [if_pos ⟨hbw.trans hcw, hbh.trans hch, hlocks⟩]
      exact ⟨_, rfl⟩
    obtain ⟨n₂, hcopy⟩ := hcopy
    rw [hcopy, hr]
    exact ⟨_, r, rfl⟩
  · rw [hr]
    exact ⟨_, r, rfl⟩

theorem Call.complete_ready (h : call.complete = true) (hp : p ∈ call.placements)
    (himage : call.images p.imageId = some image) (hvisible : call.visible p = some id) : p.ready image = true := by
  have hall := List.all_eq_true.mp h p hp
  have hinfo : p.renderInfo.isNone = false := by
    unfold Call.visible at hvisible
    split_ifs at hvisible with hv
    simpa using hv.2
  rw [hinfo, himage] at hall
  simpa using hall

/-- The loop places every visible image, as long as there is room. -/
theorem loop_complete {l : Loop} {ps : List Placement} (h : Sized l.native) (howns : Owns l.native)
    (hready : ∀ p ∈ ps, ∀ image id, call.images p.imageId = some image → call.visible p = some id →
      p.ready image = true) (hl : l.incompleteFrame = false) :
    (call.loop l ps).incompleteFrame = false ∧
    ((∃ p ∈ ps, call.visible p ≠ none) → 0 < call.capacity → 0 < (call.loop l ps).placed.length) := by
  induction ps generalizing l with
  | nil => exact ⟨hl, by simp⟩
  | cons p ps ih =>
    have hrest : ∀ p ∈ ps, ∀ image id, call.images p.imageId = some image → call.visible p = some id →
        p.ready image = true := fun p hp => hready p (List.mem_cons_of_mem _ hp)
    have hsized := body_sized call h howns p
    have hkeeps := (body_keeps call howns p).1
    rw [Call.loop]
    split_ifs with hroom
    · obtain ⟨hinvisible, hbody⟩ | ⟨hvisible, image, himage, hcase⟩ := body_cases call l p
      · rw [hbody] at hsized hkeeps ⊢
        obtain ⟨hdone, hplaced⟩ := ih h howns hrest hl
        refine ⟨hdone, fun hex => hplaced ?_⟩
        obtain ⟨q, hq, hqv⟩ := hex
        obtain rfl | hq := List.mem_cons.mp hq
        · exact absurd hinvisible hqv
        · exact ⟨q, hq, hqv⟩
      · obtain ⟨n', r, hcur⟩ := currentBitmap_ready h howns (hready p List.mem_cons_self image _ himage hvisible)
        obtain ⟨n, hnone, -⟩ | ⟨n, r', info, -, hbody⟩ := hcase
        · rw [hcur] at hnone
          cases hnone
        · obtain ⟨hdone, -⟩ := ih hsized hkeeps hrest (by rw [hbody]; exact hl)
          refine ⟨hdone, fun _ _ => ?_⟩
          have hgrows := (loop_grows call (call.body l p) ps).1.length_le
          rw [hbody] at hgrows ⊢
          rw [List.length_append, List.length_singleton] at hgrows
          omega
    · refine ⟨hl, fun _ hcapacity => ?_⟩
      unfold MAX_PLACEMENTS at hroom
      omega

/-- A call all of whose images are complete stores its placements, if there are some or the
terminal has been quiet. -/
theorem update_complete (h : Sized n) (howns : Owns n) (hcomplete : call.complete = true)
    (hgraphics : call.graphics = true) (hcapacity : 0 < call.capacity)
    (hquiet : (∃ p ∈ call.placements, call.visible p ≠ none) ∨ call.receiving = false) :
    ∃ placed, (updateKittyGraphics n call).2 = some placed := by
  obtain ⟨hdone, hplaced⟩ := loop_complete (l := ⟨n, [], false⟩) h howns
    (fun _ hp _ _ himage hvisible => Call.complete_ready hcomplete hp himage hvisible) rfl
  unfold updateKittyGraphics
  dsimp only
  rw [if_neg (by simp [hgraphics]; omega), if_neg (by simp [hdone]), if_neg ?_]
  · exact ⟨_, rfl⟩
  · rintro ⟨hzero, -, hreceiving⟩
    obtain hex | hquiet := hquiet
    · exact (hplaced hex hcapacity).ne' hzero
    · rw [hreceiving] at hquiet
      cases hquiet

end Tinyhack.Kitty
