import TinyhackSsh.Spec.KittyCache

/-! Which references survive a call of `update_kitty_graphics`. The cache owns
live, distinct references whose pixels its entries name (`Owns`), whatever fails
on the way; a deleted reference stays deleted. So a reference the loop has
collected is lost exactly when a later placement evicts its image. -/

namespace Tinyhack.Kitty

open Runs

variable {n n' n'' : Native} {c c' c'' d : KittyBitmapCache} {call : Call} {image : Image} {p : Placement}
  {id r : ℕ} {o : Option ℕ}

/-- What the entry says its bitmap shows. -/
def KittyBitmapCache.pixels (c : KittyBitmapCache) : Option (ℕ × ℕ) :=
  if c.generation = 0 then none else some (c.imageId, c.generation)

structure Owns (n : Native) : Prop where
  short : n.cache.length ≤ 2
  ids : n.queue.Nodup
  live : ∀ c ∈ n.cache, ∀ r, c.bitmap = some r →
    r < n.nextRef ∧ ∃ b, n.refs r = some b ∧ b.pixels = c.pixels
  apart : ∀ c ∈ n.cache, ∀ d ∈ n.cache, ∀ r, c.bitmap = some r → d.bitmap = some r → c = d
  blank : ∀ c ∈ n.cache, c.bitmap = none → c.generation = 0

/-- Made and deleted. -/
def Dead (n : Native) (r : ℕ) : Prop := r < n.nextRef ∧ n.refs r = none

theorem owns_init : Owns Native.init := by
  constructor <;> simp [Native.init, Native.queue]

theorem Owns.eq_of_id (h : Owns n) (hc : c ∈ n.cache) (hd : d ∈ n.cache) (hid : c.imageId = d.imageId) :
    c = d :=
  List.inj_on_of_nodup_map h.ids hc hd hid

theorem Owns.not_dead (h : Owns n) (hc : c ∈ n.cache) (hr : c.bitmap = some r) : ¬Dead n r := by
  rintro ⟨-, hnone⟩
  obtain ⟨-, b, hb, -⟩ := h.live c hc r hr
  rw [hb] at hnone
  cases hnone

/-- From `n` to `n'` only `c`'s entry is written, to `c'`. -/
structure Reworks (n : Native) (c : KittyBitmapCache) (n' : Native) (c' : KittyBitmapCache) : Prop where
  owns : Owns n'
  mem : c' ∈ n'.cache
  id : c'.imageId = c.imageId
  queue : n'.queue = n.queue
  others : ∀ d ∈ n.cache, d.imageId ≠ c.imageId → d ∈ n'.cache
  dead : ∀ r, Dead n r → Dead n' r

theorem Reworks.refl (h : Owns n) (hc : c ∈ n.cache) : Reworks n c n c :=
  ⟨h, hc, rfl, rfl, fun _ hd _ => hd, fun _ hr => hr⟩

theorem Reworks.trans (h : Reworks n c n' c') (h' : Reworks n' c' n'' c'') : Reworks n c n'' c'' where
  owns := h'.owns
  mem := h'.mem
  id := h'.id.trans h.id
  queue := h'.queue.trans h.queue
  others d hd hne := h'.others d (h.others d hd hne) (h.id ▸ hne)
  dead r hr := h'.dead r (h.dead r hr)

theorem mem_put : d ∈ (n.put c).cache ↔ (d = c ∧ ∃ e ∈ n.cache, e.imageId = c.imageId) ∨
    (d ∈ n.cache ∧ d.imageId ≠ c.imageId) := by
  simp only [Native.put, List.mem_map]
  constructor
  · rintro ⟨e, he, rfl⟩
    split_ifs with hid
    · exact Or.inl ⟨rfl, e, he, hid⟩
    · exact Or.inr ⟨he, hid⟩
  · rintro (⟨rfl, e, he, hid⟩ | ⟨hd, hid⟩)
    · exact ⟨e, he, if_pos hid⟩
    · exact ⟨d, hd, if_neg hid⟩

theorem queue_put : (n.put c).queue = n.queue := by
  simp only [Native.queue, Native.put, List.map_map]
  apply List.map_congr_left
  intro e _
  by_cases hid : e.imageId = c.imageId <;> simp [hid]

/-- The entry may be given its old reference or a new one, as long as no other
entry's reference changes. -/
theorem Owns.put (h : Owns n) (hc : c ∈ n.cache) (hcache : n'.cache = n.cache) (hid : c'.imageId = c.imageId)
    (hnext : n.nextRef ≤ n'.nextRef)
    (hrefs : ∀ r, r < n.nextRef → c.bitmap ≠ some r → n'.refs r = n.refs r)
    (hlive : ∀ r, c'.bitmap = some r → (c.bitmap = some r ∨ n.nextRef ≤ r) ∧ r < n'.nextRef ∧
      ∃ b, n'.refs r = some b ∧ b.pixels = c'.pixels)
    (hblank : c'.bitmap = none → c'.generation = 0) : Reworks n c (n'.put c') c' := by
  have hmem : ∀ d, d ∈ (n'.put c').cache → d = c' ∨ d ∈ n.cache ∧ d ≠ c := by
    intro d hd
    rcases mem_put.mp hd with ⟨rfl, -⟩ | ⟨hd, hne⟩
    · exact Or.inl rfl
    · refine Or.inr ⟨hcache ▸ hd, ?_⟩
      rintro rfl
      exact hne hid.symm
  have hfree : ∀ d ∈ n.cache, d ≠ c → ∀ r, d.bitmap = some r → r < n.nextRef ∧ c.bitmap ≠ some r := by
    intro d hd hne r hr
    exact ⟨(h.live d hd r hr).1, fun hcr => hne (h.apart d hd c hc r hr hcr)⟩
  have hforeign : ∀ d ∈ n.cache, d ≠ c → ∀ r, d.bitmap = some r → c'.bitmap ≠ some r := by
    intro d hd hne r hr hr'
    obtain ⟨hlt, hcr⟩ := hfree d hd hne r hr
    rcases (hlive r hr').1 with hold | hnew
    · exact hcr hold
    · omega
  refine ⟨⟨?_, ?_, ?_, ?_, ?_⟩, ?_, hid, ?_, ?_, ?_⟩
  · simpa [Native.put, hcache] using h.short
  · rw [queue_put, Native.queue, hcache]
    exact h.ids
  · intro d hd r hr
    rcases hmem d hd with rfl | ⟨hd, hne⟩
    · exact (hlive r hr).2
    · obtain ⟨hlt, hcr⟩ := hfree d hd hne r hr
      obtain ⟨-, b, hb, hpx⟩ := h.live d hd r hr
      exact ⟨hlt.trans_le hnext, b, (hrefs r hlt hcr).trans hb, hpx⟩
  · intro d hd e he r hdr her
    rcases hmem d hd with rfl | ⟨hd', hdne⟩ <;> rcases hmem e he with rfl | ⟨he', hene⟩
    · rfl
    · exact absurd hdr (hforeign e he' hene r her)
    · exact absurd her (hforeign d hd' hdne r hdr)
    · exact h.apart d hd' e he' r hdr her
  · intro d hd hnone
    rcases hmem d hd with rfl | ⟨hd, -⟩
    · exact hblank hnone
    · exact h.blank d hd hnone
  · exact mem_put.mpr (Or.inl ⟨rfl, c, hcache ▸ hc, hid.symm⟩)
  · rw [queue_put, Native.queue, hcache]
    rfl
  · intro d hd hne
    exact mem_put.mpr (Or.inr ⟨hcache ▸ hd, hid ▸ hne⟩)
  · intro r hdead
    have hcr : c.bitmap ≠ some r := fun hcr => h.not_dead hc hcr hdead
    exact ⟨hdead.1.trans_le hnext, (hrefs r hdead.1 hcr).trans hdead.2⟩

theorem dropResized_reworks (h : Owns n) (hc : c ∈ n.cache) (width height : ℕ) :
    Reworks n c (dropResized n c width height).1 (dropResized n c width height).2 := by
  unfold dropResized
  cases hr : c.bitmap with
  | none => exact .refl h hc
  | some r =>
    dsimp only
    split_ifs
    · refine h.put hc rfl rfl le_rfl (fun r' _ hne => ?_) (by simp) fun _ => rfl
      have hne' : r' ≠ r := fun heq => hne (hr.trans (congrArg some heq.symm))
      exact Function.update_of_ne hne' _ _
    · exact .refl h hc

/-- The bitmap left has the size asked for. -/
theorem dropResized_size (width height : ℕ) (hr : (dropResized n c width height).2.bitmap = some r) :
    (dropResized n c width height).2.width = width ∧ (dropResized n c width height).2.height = height := by
  unfold dropResized at hr ⊢
  cases hb : c.bitmap with
  | none => simp [hb] at hr
  | some r' =>
    simp only [hb] at hr ⊢
    split_ifs at hr ⊢ with hsize
    exact not_or.mp hsize |>.imp not_not.mp not_not.mp

theorem ensureBitmap_reworks (h : Owns n) (hc : c ∈ n.cache) {width height : ℕ} {creates : Bool}
    (hsize : c.bitmap ≠ none → c.width = width ∧ c.height = height)
    (he : ensureBitmap n c width height creates = (n', some c')) :
    Reworks n c n' c' ∧ c'.bitmap ≠ none ∧ c'.width = width ∧ c'.height = height := by
  unfold ensureBitmap at he
  cases hr : c.bitmap with
  | some r =>
    simp only [hr] at he
    obtain ⟨rfl, rfl⟩ := he
    exact ⟨.refl h hc, by simp [hr], hsize (by simp [hr])⟩
  | none =>
    simp only [hr] at he
    split_ifs at he with hcreates
    · obtain ⟨rfl, rfl⟩ := he
      refine ⟨h.put hc rfl rfl (Nat.le_succ _) (fun r hlt _ => ?_) ?_ (by simp), by simp, rfl, rfl⟩
      · exact Function.update_of_ne hlt.ne _ _
      · rintro r ⟨⟩
        refine ⟨Or.inr le_rfl, Nat.lt_succ_self _, ⟨width, height, none⟩, Function.update_self _ _ _, ?_⟩
        simp [KittyBitmapCache.pixels, h.blank c hc hr]
    · cases he

/-- A failed creation leaves the entry without a bitmap. -/
theorem ensureBitmap_none {width height : ℕ} {creates : Bool}
    (he : ensureBitmap n c width height creates = (n', none)) : n' = n := by
  unfold ensureBitmap at he
  cases hr : c.bitmap with
  | some r => simp [hr] at he
  | none =>
    simp only [hr] at he
    split_ifs at he
    · cases he
    · exact (congrArg Prod.fst he).symm

theorem copy_reworks (h : Owns n) (hc : c ∈ n.cache) {locks : Bool} (hid : c.imageId = id)
    (he : copyKittyPixelsToBitmap n c.bitmap id image locks = some n') :
    Reworks n c (n'.put { c with generation := image.generation }) { c with generation := image.generation } := by
  unfold copyKittyPixelsToBitmap at he
  split at he
  next r _ hr _ =>
    split_ifs at he
    split at he
    next => cases he
    next b hb =>
      split_ifs at he
      cases he
      refine h.put hc rfl rfl le_rfl (fun r' _ hne => ?_) ?_ (by simp [hr])
      · have hne' : r' ≠ r := fun heq => hne (hr.trans (congrArg some heq.symm))
        exact Function.update_of_ne hne' _ _
      · intro r' hr'
        obtain rfl : r = r' := by simpa [hr] using hr'
        refine ⟨Or.inl hr, (h.live c hc r hr).1, _, Function.update_self _ _ _, ?_⟩
        simp [KittyBitmapCache.pixels, image.generation_ne, hid]
  next => cases he

theorem eraseFront_cache : n.eraseFront.cache = n.cache.tail := by
  unfold Native.eraseFront
  cases hcache : n.cache <;> simp [hcache]

theorem eraseFront_nextRef : n.eraseFront.nextRef = n.nextRef := by
  unfold Native.eraseFront
  cases n.cache with
  | nil => rfl
  | cons front rest => cases hr : front.bitmap <;> simp [hr, Native.deleteGlobalRef]

theorem eraseFront_refs {front : KittyBitmapCache} {rest : List KittyBitmapCache}
    (hcache : n.cache = front :: rest) (r : ℕ) :
    n.eraseFront.refs r = if front.bitmap = some r then none else n.refs r := by
  unfold Native.eraseFront
  rw [hcache]
  cases hr : front.bitmap with
  | none => simp [hr]
  | some r' =>
    simp only [hr, Native.deleteGlobalRef, Function.update_apply, Option.some.injEq]
    exact if_congr eq_comm rfl rfl

theorem eraseFront_owns {front : KittyBitmapCache} {rest : List KittyBitmapCache} (h : Owns n)
    (hcache : n.cache = front :: rest) : Owns n.eraseFront := by
  have hsub : ∀ d, d ∈ n.eraseFront.cache → d ∈ n.cache ∧ d.imageId ≠ front.imageId := by
    intro d hd
    rw [eraseFront_cache, hcache, List.tail_cons] at hd
    have hnodup := h.ids
    rw [Native.queue, hcache, List.map_cons, List.nodup_cons] at hnodup
    refine ⟨hcache ▸ List.mem_cons_of_mem _ hd, fun hid => hnodup.1 ?_⟩
    exact List.mem_map.mpr ⟨d, hd, hid⟩
  have hfront : front ∈ n.cache := hcache ▸ List.mem_cons_self
  refine ⟨?_, ?_, ?_, ?_, ?_⟩
  · rw [eraseFront_cache, List.length_tail]
    exact (Nat.sub_le _ _).trans h.short
  · rw [Native.queue, eraseFront_cache, List.map_tail]
    exact h.ids.tail
  · intro d hd r hr
    obtain ⟨hd, hne⟩ := hsub d hd
    rw [eraseFront_nextRef, eraseFront_refs hcache, if_neg]
    · exact h.live d hd r hr
    · exact fun hr' => hne (congrArg _ (h.apart d hd front hfront r hr hr'))
  · intro d hd e he
    exact h.apart d (hsub d hd).1 e (hsub e he).1
  · intro d hd
    exact h.blank d (hsub d hd).1

theorem append_owns (h : Owns n) (hlen : n.cache.length < 2) (hid : id ∉ n.queue) :
    Owns { n with cache := n.cache ++ [⟨id, 0, 0, 0, none⟩] } := by
  have hnew : ∀ d, d ∈ n.cache ++ [(⟨id, 0, 0, 0, none⟩ : KittyBitmapCache)] → d ∈ n.cache ∨
      d.bitmap = none ∧ d.generation = 0 := by
    intro d hd
    rcases List.mem_append.mp hd with hd | hd
    · exact Or.inl hd
    · obtain rfl := List.mem_singleton.mp hd
      exact Or.inr ⟨rfl, rfl⟩
  refine ⟨?_, ?_, ?_, ?_, ?_⟩
  · simpa using hlen
  · simp only [Native.queue, List.map_append, List.map_cons, List.map_nil]
    exact List.nodup_append.mpr ⟨h.ids, List.nodup_singleton _, by
      rintro a ha b hb rfl
      exact hid (List.mem_singleton.mp hb ▸ ha)⟩
  · intro d hd r hr
    rcases hnew d hd with hd | ⟨hnone, -⟩
    · exact h.live d hd r hr
    · simp [hnone] at hr
  · intro d hd e he r hdr her
    rcases hnew d hd with hd | ⟨hnone, -⟩
    · rcases hnew e he with he | ⟨hnone, -⟩
      · exact h.apart d hd e he r hdr her
      · simp [hnone] at her
    · simp [hnone] at hdr
  · intro d hd hnone
    rcases hnew d hd with hd | ⟨-, hgen⟩
    · exact h.blank d hd hnone
    · exact hgen

/-- The entry for `id` is found or made, as the queue of ids says. -/
structure Enters (n : Native) (id : ℕ) (n' : Native) (c : KittyBitmapCache) : Prop where
  owns : Owns n'
  mem : c ∈ n'.cache
  imageId : c.imageId = id
  queue : n'.queue = enqueue n.queue id
  kept : ∀ d ∈ n.cache, evicted n.queue id ≠ some d.imageId → d ∈ n'.cache
  gone : ∀ d ∈ n.cache, evicted n.queue id = some d.imageId → ∀ r, d.bitmap = some r → Dead n' r
  dead : ∀ r, Dead n r → Dead n' r

theorem length_queue : n.queue.length = n.cache.length := List.length_map ..

theorem cacheEntry_enters (h : Owns n) (id : ℕ) : Enters n id (cacheEntry n id).1 (cacheEntry n id).2 := by
  unfold cacheEntry
  cases hfind : n.cache.find? (fun c => c.imageId = id) with
  | some c =>
    have hc : c ∈ n.cache := List.mem_of_find?_eq_some hfind
    have hid : c.imageId = id := by simpa using List.find?_some hfind
    have hin : id ∈ n.queue := List.mem_map.mpr ⟨c, hc, hid⟩
    exact ⟨h, hc, hid, by simp [enqueue, hin], fun d hd _ => hd, by simp [evicted, hin], fun _ hr => hr⟩
  | none =>
    have hout : id ∉ n.queue := by
      intro hin
      obtain ⟨c, hc, hid⟩ := List.mem_map.mp hin
      simpa [hid] using List.find?_eq_none.mp hfind c hc
    dsimp only
    split_ifs with hfull
    · obtain ⟨front, rest, hcache⟩ := List.exists_cons_of_length_pos (by omega : 0 < n.cache.length)
      have hq : ¬n.queue.length < 2 := by rw [length_queue]; omega
      have hev : evicted n.queue id = some front.imageId := by
        rw [evicted, if_neg (not_or.mpr ⟨hout, hq⟩)]
        simp [Native.queue, hcache]
      have hfront : front ∈ n.cache := hcache ▸ List.mem_cons_self
      have howns := eraseFront_owns h hcache
      have hshort := h.short
      have hlen : n.eraseFront.cache.length < 2 := by rw [eraseFront_cache, List.length_tail]; omega
      have hout' : id ∉ n.eraseFront.queue := by
        rw [Native.queue, eraseFront_cache, List.map_tail]
        exact fun hin => hout (List.mem_of_mem_tail hin)
      refine ⟨append_owns howns hlen hout', by simp, rfl, ?_, ?_, ?_, ?_⟩
      · rw [enqueue, if_neg hout, if_neg hq]
        simp [Native.queue, eraseFront_cache]
      · intro d hd hne
        rw [hcache] at hd
        rcases List.mem_cons.mp hd with rfl | hd
        · exact absurd hev hne
        · simp [eraseFront_cache, hcache, hd]
      · intro d hd hd' r hr
        obtain rfl : front = d := h.eq_of_id hfront hd (Option.some.inj (hev.symm.trans hd'))
        refine ⟨?_, ?_⟩
        · exact eraseFront_nextRef (n := n) ▸ (h.live front hfront r hr).1
        · simp [eraseFront_refs hcache, hr]
      · rintro r ⟨hlt, hnone⟩
        refine ⟨eraseFront_nextRef (n := n) ▸ hlt, ?_⟩
        simp [eraseFront_refs hcache, hnone]
    · have hq : n.queue.length < 2 := by rw [length_queue]; omega
      refine ⟨append_owns h (by omega) hout, by simp, rfl, ?_, ?_, ?_, fun _ hr => hr⟩
      · rw [enqueue, if_neg hout, if_pos hq]
        simp [Native.queue]
      · intro d hd _
        exact List.mem_append_left _ hd
      · simp [evicted, hq]

/-- What even a failed request keeps. -/
def Keeps (n n' : Native) : Prop := Owns n' ∧ ∀ r, Dead n r → Dead n' r

theorem Keeps.refl (h : Owns n) : Keeps n n := ⟨h, fun _ hr => hr⟩

theorem Keeps.trans (h : Keeps n n') (h' : Keeps n' n'') : Keeps n n'' :=
  ⟨h'.1, fun r hr => h'.2 r (h.2 r hr)⟩

theorem Enters.keeps (h : Enters n id n' c) : Keeps n n' := ⟨h.owns, h.dead⟩

theorem Reworks.keeps (h : Reworks n c n' c') : Keeps n n' := ⟨h.owns, h.dead⟩

theorem bitmapCacheFor_none (h : Owns n) {width height : ℕ} {creates : Bool}
    (he : bitmapCacheFor n id width height creates = (n', none)) : Keeps n n' := by
  unfold bitmapCacheFor at he
  split_ifs at he
  · cases he
    exact .refl h
  · have henter := cacheEntry_enters h id
    have hdrop := dropResized_reworks henter.owns henter.mem width height
    obtain rfl := ensureBitmap_none he
    exact henter.keeps.trans hdrop.keeps

theorem bitmapCacheFor_some (h : Owns n) {width height : ℕ} {creates : Bool}
    (he : bitmapCacheFor n id width height creates = (n', some c')) :
    ∃ n₁ c₁, Enters n id n₁ c₁ ∧ Reworks n₁ c₁ n' c' ∧
      (c'.bitmap ≠ none ∧ c'.width = width ∧ c'.height = height) ∧
      (c₁.bitmap ≠ none → c₁.width = width → c₁.height = height → c' = c₁) := by
  unfold bitmapCacheFor at he
  split_ifs at he
  · cases he
  have henter := cacheEntry_enters h id
  have hdrop := dropResized_reworks henter.owns henter.mem width height
  have hsize : (dropResized (cacheEntry n id).1 (cacheEntry n id).2 width height).2.bitmap ≠ none → _ :=
    fun hne => dropResized_size width height (Option.ne_none_iff_exists'.mp hne).choose_spec
  obtain ⟨hens, hbitmap⟩ := ensureBitmap_reworks hdrop.owns hdrop.mem hsize he
  refine ⟨_, _, henter, hdrop.trans hens, hbitmap, fun hne hw hh => ?_⟩
  obtain ⟨r, hr⟩ := Option.ne_none_iff_exists'.mp hne
  have hsame : dropResized (cacheEntry n id).1 (cacheEntry n id).2 width height = cacheEntry n id := by
    simp [dropResized, hr, hw, hh]
  dsimp only at he
  rw [hsame] at he
  simp only [ensureBitmap, hr] at he
  exact (Option.some.inj (congrArg Prod.snd he)).symm

/-- The entry shows the image in the bitmap `r`. -/
def KittyBitmapCache.Shows (c : KittyBitmapCache) (id : ℕ) (image : Image) (r : ℕ) : Prop :=
  c.imageId = id ∧ c.bitmap = some r ∧ c.width = image.width ∧ c.height = image.height ∧
    c.generation = image.generation

structure Serves (n : Native) (id : ℕ) (image : Image) (n' : Native) (r : ℕ) : Prop where
  keeps : Keeps n n'
  queue : n'.queue = enqueue n.queue id
  entry : ∃ c ∈ n'.cache, c.Shows id image r
  kept : ∀ d ∈ n.cache, evicted n.queue id ≠ some d.imageId →
    (d.imageId = id → ∃ r, d.Shows id image r) → d ∈ n'.cache
  gone : ∀ d ∈ n.cache, evicted n.queue id = some d.imageId → ∀ r, d.bitmap = some r → Dead n' r

/-- The loop body's ways to a bitmap: refused, served from the cache, or served after a copy. -/
theorem currentBitmap_cases (he : currentBitmap n p image = (n', o)) :
    (o = none ∧ n' = n) ∨
    (o = none ∧ bitmapCacheFor n p.imageId image.width image.height p.creates = (n', none)) ∨
    ∃ n₁ c, bitmapCacheFor n p.imageId image.width image.height p.creates = (n₁, some c) ∧
      ((o = none ∧ n' = n₁) ∨ (o = c.bitmap ∧ c.generation = image.generation ∧ n' = n₁) ∨
        (o = c.bitmap ∧ c.generation ≠ image.generation ∧
          ∃ n₂, copyKittyPixelsToBitmap n₁ c.bitmap p.imageId image p.locks = some n₂ ∧
            n' = n₂.put { c with generation := image.generation })) := by
  unfold currentBitmap at he
  split_ifs at he
  · cases he
    exact Or.inl ⟨rfl, rfl⟩
  refine Or.inr ?_
  cases hbc : bitmapCacheFor n p.imageId image.width image.height p.creates with
  | mk n₁ found =>
    cases found with
    | none =>
      simp only [hbc] at he
      cases he
      exact Or.inl ⟨rfl, rfl⟩
    | some c =>
      simp only [hbc] at he
      refine Or.inr ⟨n₁, c, rfl, ?_⟩
      split_ifs at he with hgen
      · cases hcopy : copyKittyPixelsToBitmap n₁ c.bitmap p.imageId image p.locks with
        | none =>
          simp only [hcopy] at he
          cases he
          exact Or.inl ⟨rfl, rfl⟩
        | some n₂ =>
          simp only [hcopy] at he
          cases he
          exact Or.inr (Or.inr ⟨rfl, hgen, n₂, rfl, rfl⟩)
      · cases he
        exact Or.inr (Or.inl ⟨rfl, not_not.mp hgen, rfl⟩)

theorem currentBitmap_none (h : Owns n) (he : currentBitmap n p image = (n', none)) : Keeps n n' := by
  rcases currentBitmap_cases he with ⟨-, rfl⟩ | ⟨-, hbc⟩ | ⟨n₁, c, hbc, hcase⟩
  · exact .refl h
  · exact bitmapCacheFor_none h hbc
  · obtain ⟨n₀, c₀, henter, hwork, ⟨hne, -⟩, -⟩ := bitmapCacheFor_some h hbc
    rcases hcase with ⟨-, rfl⟩ | ⟨hnone, -⟩ | ⟨hnone, -⟩
    · exact henter.keeps.trans hwork.keeps
    · exact absurd hnone.symm hne
    · exact absurd hnone.symm hne

theorem currentBitmap_serves (h : Owns n) (he : currentBitmap n p image = (n', some r)) :
    Serves n p.imageId image n' r := by
  rcases currentBitmap_cases he with ⟨hnone, -⟩ | ⟨hnone, -⟩ | ⟨n₁, c, hbc, hcase⟩
  · cases hnone
  · cases hnone
  obtain ⟨n₀, c₀, henter, hwork, ⟨-, hw, hh⟩, hsame⟩ := bitmapCacheFor_some h hbc
  have hid : c.imageId = p.imageId := hwork.id.trans henter.imageId
  -- an entry that shows the image already is the one found, and nothing is written to it
  have hhit : ∀ d ∈ n.cache, evicted n.queue p.imageId ≠ some d.imageId → d.imageId = p.imageId →
      (∃ r, d.Shows p.imageId image r) → d = c := by
    rintro d hd hev hdid ⟨r, -, hr, hdw, hdh, -⟩
    obtain rfl : d = c₀ := henter.owns.eq_of_id (henter.kept d hd hev) henter.mem
      (hdid.trans henter.imageId.symm)
    exact (hsame (by simp [hr]) hdw hdh).symm
  have hserves : ∀ c₂, Reworks n₁ c n' c₂ → c₂.Shows p.imageId image r →
      (c.generation = image.generation → n' = n₁) → Serves n p.imageId image n' r := by
    intro c₂ hwork₂ hshows hnop
    have hall := hwork.trans hwork₂
    refine ⟨henter.keeps.trans hall.keeps, hall.queue.trans henter.queue, ⟨c₂, hall.mem, hshows⟩, ?_, ?_⟩
    · intro d hd hev hcur
      by_cases hdid : d.imageId = p.imageId
      · obtain rfl := hhit d hd hev hdid (hcur hdid)
        obtain ⟨_, -, -, -, -, hgen⟩ := hcur hdid
        exact hnop hgen ▸ hwork.mem
      · refine hall.others d (henter.kept d hd hev) ?_
        rw [henter.imageId]
        exact hdid
    · intro d hd hev r' hr'
      exact hall.dead r' (henter.gone d hd hev r' hr')
  rcases hcase with ⟨hnone, -⟩ | ⟨hr, hgen, rfl⟩ | ⟨hr, hgen, n₂, hcopy, rfl⟩
  · cases hnone
  · exact hserves c (.refl hwork.owns hwork.mem) ⟨hid, hr.symm, hw, hh, hgen⟩ fun _ => rfl
  · refine hserves _ (copy_reworks hwork.owns hwork.mem hid hcopy) ⟨hid, hr.symm, hw, hh, rfl⟩ fun heq => ?_
    exact absurd heq hgen

theorem body_cases (call : Call) (l : Loop) (p : Placement) :
    (call.visible p = none ∧ call.body l p = l) ∨
    call.visible p = some p.imageId ∧ ∃ image, call.images p.imageId = some image ∧
      ((∃ n, currentBitmap l.native p image = (n, none) ∧
          call.body l p = { l with native := n, incompleteFrame := true }) ∨
        ∃ n r info, currentBitmap l.native p image = (n, some r) ∧
          call.body l p = { l with native := n, placed := l.placed ++ [call.place p image info r] }) := by
  unfold Call.body Call.visible
  cases himage : call.images p.imageId with
  | none => exact Or.inl (by simp)
  | some image =>
    cases hinfo : p.renderInfo with
    | none => exact Or.inl (by simp)
    | some info =>
      refine Or.inr ⟨by simp, image, rfl, ?_⟩
      cases hcur : currentBitmap l.native p image with
      | mk n o =>
        cases o with
        | none => exact Or.inl ⟨n, rfl, by simp only [hcur]⟩
        | some r => exact Or.inr ⟨n, r, info, rfl, by simp only [hcur]⟩

theorem body_keeps (call : Call) {l : Loop} (h : Owns l.native) (p : Placement) :
    Keeps l.native (call.body l p).native := by
  obtain ⟨-, hbody⟩ | ⟨-, image, -, ⟨n, hcur, hbody⟩ | ⟨n, r, info, hcur, hbody⟩⟩ := body_cases call l p
  · rw [hbody]
    exact .refl h
  · rw [hbody]
    exact currentBitmap_none h hcur
  · rw [hbody]
    exact (currentBitmap_serves h hcur).keeps

theorem loop_keeps (call : Call) {l : Loop} (h : Owns l.native) (ps : List Placement) :
    Keeps l.native (call.loop l ps).native := by
  induction ps generalizing l with
  | nil => exact .refl h
  | cons p ps ih =>
    rw [Call.loop]
    split_ifs
    · have hbody := body_keeps call h p
      exact hbody.trans (ih hbody.1)
    · exact .refl h

/-- The loop never takes back a reference or the incomplete mark. -/
theorem loop_grows (call : Call) (l : Loop) (ps : List Placement) :
    l.placed <+: (call.loop l ps).placed ∧
      (l.incompleteFrame = true → (call.loop l ps).incompleteFrame = true) := by
  induction ps generalizing l with
  | nil => exact ⟨List.prefix_refl _, fun h => h⟩
  | cons p ps ih =>
    rw [Call.loop]
    split_ifs
    · obtain ⟨hpre, hinc⟩ := ih (call.body l p)
      obtain ⟨-, hbody⟩ | ⟨-, image, -, ⟨n, -, hbody⟩ | ⟨n, r, info, -, hbody⟩⟩ := body_cases call l p
      · rw [hbody] at hpre hinc ⊢
        exact ⟨hpre, hinc⟩
      · rw [hbody] at hpre hinc ⊢
        exact ⟨hpre, fun _ => hinc rfl⟩
      · rw [hbody] at hpre hinc ⊢
        exact ⟨(List.prefix_append _ _).trans hpre, hinc⟩
    · exact ⟨List.prefix_refl _, fun h => h⟩

/-- The entry of the image still shows what was collected for it. -/
def Shown (call : Call) (n : Native) (x : Placed) : Prop :=
  ∃ image, call.images x.imageId = some image ∧ x.generation = image.generation ∧
    ∃ c ∈ n.cache, c.Shows x.imageId image x.bitmap

theorem Shown.holds {x : Placed} (h : Owns n) (hx : Shown call n x) : n.Holds x := by
  obtain ⟨image, -, hgen, c, hc, hid, hr, -, -, hcgen⟩ := hx
  obtain ⟨-, b, hb, hpx⟩ := h.live c hc x.bitmap hr
  refine ⟨⟨c, hc, hr⟩, ?_⟩
  rw [hb, Option.bind_some, hpx, KittyBitmapCache.pixels, if_neg (hcgen ▸ image.generation_ne), hid, hcgen, hgen]

theorem Dead.not_holds {x : Placed} (h : Dead n x.bitmap) : ¬n.Holds x := by
  rintro ⟨-, hpx⟩
  simp [h.2] at hpx

theorem Serves.shown {x : Placed} (h : Serves n id image n' r) (himage : call.images id = some image)
    (hx : Shown call n x) (hev : evicted n.queue id ≠ some x.imageId) : Shown call n' x := by
  obtain ⟨image', himage', hgen, c, hc, hshows⟩ := hx
  refine ⟨image', himage', hgen, c, h.kept c hc (hshows.1.symm ▸ hev) fun hid => ?_, hshows⟩
  obtain rfl : x.imageId = id := hshows.1.symm.trans hid
  obtain rfl : image' = image := Option.some.inj (himage'.symm.trans himage)
  exact ⟨x.bitmap, hshows⟩

theorem Serves.lost {x : Placed} (h : Serves n id image n' r) (hx : Shown call n x)
    (hev : evicted n.queue id = some x.imageId) : Dead n' x.bitmap := by
  obtain ⟨_, -, -, c, hc, hid, hr, -⟩ := hx
  exact h.gone c hc (hid.symm ▸ hev) x.bitmap hr

theorem loop_holds_iff {l : Loop} {ps : List Placement} (h : Owns l.native)
    (hshown : ∀ x ∈ l.placed, Shown call l.native x)
    (hdone : (call.loop l ps).incompleteFrame = false) :
    (∀ x ∈ (call.loop l ps).placed, (call.loop l ps).native.Holds x) ↔
      SparesListed l.native.queue (l.placed.map Placed.imageId)
        ((ps.filterMap call.visible).take (min call.capacity MAX_PLACEMENTS - l.placed.length)) := by
  induction ps generalizing l with
  | nil =>
    simp only [Call.loop, List.filterMap_nil, List.take_nil, SparesListed, iff_true]
    exact fun x hx => (hshown x hx).holds h
  | cons p ps ih =>
    rw [Call.loop] at hdone ⊢
    split_ifs at hdone ⊢ with hroom
    · obtain ⟨hvis, hbody⟩ | ⟨hvis, image, himage, ⟨n, hcur, hbody⟩ | ⟨n, r, info, hcur, hbody⟩⟩ :=
        body_cases call l p
      · rw [List.filterMap_cons_none hvis]
        rw [hbody] at hdone ⊢
        exact ih h hshown hdone
      · rw [hbody] at hdone
        have hinc := (loop_grows call ⟨n, l.placed, true⟩ ps).2 rfl
        exact absurd (hinc.symm.trans hdone) (by simp)
      · have hserves := currentBitmap_serves h hcur
        have hsplit : min call.capacity MAX_PLACEMENTS - l.placed.length =
            min call.capacity MAX_PLACEMENTS - (l.placed.length + 1) + 1 := by omega
        rw [List.filterMap_cons_some hvis, hsplit, List.take_succ_cons, SparesListed]
        rw [hbody] at hdone ⊢
        by_cases hspare : ∀ v ∈ evicted l.native.queue p.imageId, v ∉ l.placed.map Placed.imageId
        · have hnext := ih hserves.keeps.1 ?_ hdone
          · simp only [List.map_append, List.map_cons, List.map_nil, List.length_append, List.length_cons,
              List.length_nil, hserves.queue] at hnext
            exact hnext.trans (and_iff_right hspare).symm
          · intro x hx
            rcases List.mem_append.mp hx with hx | hx
            · exact hserves.shown himage (hshown x hx)
                fun hev => hspare _ hev (List.mem_map.mpr ⟨x, hx, rfl⟩)
            · obtain rfl := List.mem_singleton.mp hx
              exact ⟨image, himage, rfl, hserves.entry⟩
        · refine iff_of_false (fun hall => hspare ?_) fun hand => hspare hand.1
          -- a reference collected before is deleted now and stays deleted
          intro v hv hseen
          obtain ⟨x, hx, rfl⟩ := List.mem_map.mp hseen
          have hdead : Dead n x.bitmap := hserves.lost (hshown x hx) hv
          set l' : Loop := { l with native := n, placed := l.placed ++ [call.place p image info r] }
          have hx' : x ∈ (call.loop l' ps).placed :=
            (loop_grows call l' ps).1.subset (List.mem_append_left _ hx)
          exact ((loop_keeps call (l := l') hserves.keeps.1 ps).2 _ hdead).not_holds (hall x hx')
    · have hzero : min call.capacity MAX_PLACEMENTS - l.placed.length = 0 := by omega
      rw [hzero, List.take_zero, SparesListed, iff_true]
      exact fun x hx => (hshown x hx).holds h

theorem update_keeps (h : Owns n) (call : Call) : Keeps n (updateKittyGraphics n call).1 := by
  have hloop : Keeps n _ := loop_keeps call (l := ⟨n, [], false⟩) h call.placements
  unfold updateKittyGraphics
  dsimp only
  split_ifs
  · exact .refl h
  · exact hloop
  · exact hloop
  · exact hloop

/-- Whatever the calls before, and whatever failed in them, the cache owns what its entries name. -/
theorem run_owns {calls : List Call} (h : Run Native.init step anyStep calls n) : Owns n := by
  refine h.inv Owns owns_init ?_
  rintro n call _ hn - ⟨⟩
  exact (update_keeps hn call).1

theorem update_stores {placed : List Placed} (hstore : updateKittyGraphics n call = (n', some placed)) :
    ∃ l, call.loop ⟨n, [], false⟩ call.placements = l ∧ l.incompleteFrame = false ∧ l.native = n' ∧
      l.placed = placed := by
  unfold updateKittyGraphics at hstore
  dsimp only at hstore
  split_ifs at hstore with hgraphics hinc hretain
  all_goals cases hstore
  exact ⟨_, rfl, by simpa using hinc, rfl, rfl⟩

/-- In a call that stores its frame, every stored reference is live, owned and
shows the image and generation listed with it if and only if no placement takes
the slot of an image listed before it in the same call. -/
theorem stored_references_held {calls : List Call} {placed : List Placed}
    (hrun : Run Native.init step anyStep calls n)
    (hstore : updateKittyGraphics n call = (n', some placed)) :
    (∀ x ∈ placed, n'.Holds x) ↔ SparesListed n.queue [] call.listed := by
  obtain ⟨l, hloop, hdone, rfl, rfl⟩ := update_stores hstore
  subst hloop
  exact loop_holds_iff (l := ⟨n, [], false⟩) (run_owns hrun) (by simp) hdone

def smallImage (generation : ℕ) (h : generation ≠ 0) : Image := ⟨2, 2, .rgba, 16, true, generation, h⟩

/-- A placement of the whole 2 by 2 image in one cell. -/
def showImage (imageId : ℕ) : Placement :=
  ⟨imageId, 0, 0, 0, some ⟨0, 0, 2, 2, 0, 0, 2, 2⟩, true, true⟩

/-- Small images with the ids, one visible placement each. -/
def showImages (ids : List ℕ) : Call where
  graphics := true
  capacity := 16
  cellWidth := 10
  cellHeight := 20
  images id := some (smallImage (id + 1) id.succ_ne_zero)
  placements := ids.map showImage
  previousCount := 0
  receiving := false

theorem stored_references_held_two :
    ∃ n n' placed, Run Native.init step anyStep [showImages [7, 8]] n ∧
      updateKittyGraphics n (showImages [8, 7, 8]) = (n', some placed) ∧ placed.length = 3 ∧
      ∀ x ∈ placed, n'.Holds x := by
  have hrun : Run Native.init step anyStep [showImages [7, 8]] (updateKittyGraphics .init (showImages [7, 8])).1 :=
    run_of_exec rfl
  obtain ⟨n', placed, hstore, hlen⟩ : ∃ n' placed, updateKittyGraphics
      (updateKittyGraphics .init (showImages [7, 8])).1 (showImages [8, 7, 8]) = (n', some placed) ∧
      placed.length = 3 := ⟨_, _, rfl, rfl⟩
  exact ⟨_, n', placed, hrun, hstore, hlen, (stored_references_held hrun hstore).mpr (by decide)⟩

/-- With three images on screen the first one's reference is deleted before it is stored. -/
theorem third_image_deletes_first :
    ∃ n' placed first, updateKittyGraphics .init (showImages [7, 8, 9]) = (n', some placed) ∧
      placed.head? = some first ∧ first.imageId = 7 ∧ n'.refs first.bitmap = none ∧ ¬n'.Holds first := by
  refine ⟨_, _, _, rfl, rfl, rfl, rfl, by decide⟩

end Tinyhack.Kitty
