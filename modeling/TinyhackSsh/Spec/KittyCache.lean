import TinyhackSsh.Lib.Runs
import TinyhackSsh.Spec.Wire

/-! The native Kitty graphics export: `bitmap_cache_for` with its cache of two
bitmaps, and `update_kitty_graphics`, which collects one reference per visible
placement and stores them all once its loop is over. Global references are
numbered as they are made, so that a deleted one never names a newer bitmap. -/

namespace Tinyhack.Kitty

inductive Format
  | rgba
  | rgb
  | grayAlpha
  | gray
  | other
  deriving DecidableEq

def Format.bpp : Format → Option ℕ
  | .rgba => some 4
  | .rgb => some 3
  | .grayAlpha => some 2
  | .gray => some 1
  | .other => none

/-- A stored image; Ghostty documents its generation as never 0 and never reused. -/
structure Image where
  width : ℕ
  height : ℕ
  format : Format
  dataLen : ℕ
  /-- `DATA_PTR` answers with the pixels, which it does not before the last chunk -/
  resident : Bool
  generation : ℕ
  generation_ne : generation ≠ 0

structure Bitmap where
  width : ℕ
  height : ℕ
  /-- image id and generation of the pixels copied in last -/
  pixels : Option (ℕ × ℕ)
  deriving DecidableEq

structure KittyBitmapCache where
  imageId : ℕ
  width : ℕ
  height : ℕ
  generation : ℕ
  bitmap : Option ℕ
  deriving DecidableEq

structure Native where
  cache : List KittyBitmapCache
  /-- what the global references not yet deleted refer to -/
  refs : ℕ → Option Bitmap
  nextRef : ℕ

def Native.init : Native := ⟨[], fun _ => none, 0⟩

namespace Native

def deleteGlobalRef (n : Native) (r : ℕ) : Native := { n with refs := Function.update n.refs r none }

def newGlobalRef (n : Native) (b : Bitmap) : Native :=
  { n with refs := Function.update n.refs n.nextRef (some b), nextRef := n.nextRef + 1 }

/-- Write through the pointer to the entry of `c`'s image; no two entries have one image. -/
def put (n : Native) (c : KittyBitmapCache) : Native :=
  { n with cache := n.cache.map fun e => if e.imageId = c.imageId then c else e }

/-- `erase(begin())`, after the reference of that entry is deleted. -/
def eraseFront (n : Native) : Native :=
  match n.cache with
  | [] => n
  | front :: rest =>
    let n := match front.bitmap with
      | some r => n.deleteGlobalRef r
      | none => n
    { n with cache := rest }

end Native

def MAX_BITMAP_BYTES : ℕ := 16 * 1024 * 1024
def MAX_BITMAP_DIMENSION : ℕ := 8192

/-- The entry of the image, found or appended. -/
def cacheEntry (n : Native) (imageId : ℕ) : Native × KittyBitmapCache :=
  match n.cache.find? (fun c => c.imageId = imageId) with
  | some c => (n, c)
  | none =>
    let n := if n.cache.length ≥ 2 then n.eraseFront else n
    let c : KittyBitmapCache := ⟨imageId, 0, 0, 0, none⟩
    ({ n with cache := n.cache ++ [c] }, c)

/-- The entry without a bitmap of another size. -/
def dropResized (n : Native) (c : KittyBitmapCache) (width height : ℕ) : Native × KittyBitmapCache :=
  match c.bitmap with
  | none => (n, c)
  | some r =>
    if c.width ≠ width ∨ c.height ≠ height then
      let c := { c with bitmap := none, generation := 0 }
      ((n.deleteGlobalRef r).put c, c)
    else (n, c)

/-- The entry with a bitmap; `creates` is whether `createBitmap` and `NewGlobalRef` succeed. -/
def ensureBitmap (n : Native) (c : KittyBitmapCache) (width height : ℕ) (creates : Bool) :
    Native × Option KittyBitmapCache :=
  match c.bitmap with
  | some _ => (n, some c)
  | none =>
    if creates then
      let c := { c with bitmap := some n.nextRef, width := width, height := height }
      ((n.newGlobalRef ⟨width, height, none⟩).put c, some c)
    else (n, none)

def bitmapCacheFor (n : Native) (imageId width height : ℕ) (creates : Bool) :
    Native × Option KittyBitmapCache :=
  if width = 0 ∨ height = 0 ∨ width > MAX_BITMAP_DIMENSION ∨ height > MAX_BITMAP_DIMENSION ∨
      width * height * 4 > MAX_BITMAP_BYTES then (n, none)
  else
    let (n, c) := cacheEntry n imageId
    let (n, c) := dropResized n c width height
    ensureBitmap n c width height creates

/-- `copy_kitty_pixels_to_bitmap`; `locks` is whether the bitmap's pixels can be
locked. It answers false before it has written anything, or copies all rows. -/
def copyKittyPixelsToBitmap (n : Native) (bitmap : Option ℕ) (imageId : ℕ) (image : Image) (locks : Bool) :
    Option Native :=
  match bitmap, image.format.bpp with
  | some r, some bpp =>
    if image.width = 0 ∨ image.height = 0 ∨ image.width * bpp > image.dataLen / image.height then none
    else match n.refs r with
      | none => none
      | some b =>
        if b.width = image.width ∧ b.height = image.height ∧ locks then
          some { n with refs := Function.update n.refs r (some { b with pixels := some (imageId, image.generation) }) }
        else none
  | _, _ => none

structure RenderInfo where
  viewportCol : ℤ
  viewportRow : ℤ
  pixelWidth : ℕ
  pixelHeight : ℕ
  sourceX : ℕ
  sourceY : ℕ
  sourceWidth : ℕ
  sourceHeight : ℕ
  deriving DecidableEq

structure Placement where
  imageId : ℕ
  xOffset : ℕ
  yOffset : ℕ
  z : ℤ
  /-- absent when the call fails or the placement is not visible in the viewport -/
  renderInfo : Option RenderInfo
  creates : Bool
  locks : Bool
  deriving DecidableEq

/-- What one call of `update_kitty_graphics` reads. -/
structure Call where
  /-- the terminal has a graphics store and its placements can be iterated -/
  graphics : Bool
  /-- length of `kittyBitmaps` -/
  capacity : ℕ
  cellWidth : ℤ
  cellHeight : ℤ
  images : ℕ → Option Image
  placements : List Placement
  previousCount : ℤ
  /-- PTY bytes arrived less than 1500 ms ago -/
  receiving : Bool

/-- Index `i` of the arrays the call fills, and the generation of the image there. -/
structure Placed where
  bitmap : ℕ
  imageId : ℕ
  generation : ℕ
  dstLeft : ℤ
  dstTop : ℤ
  dstWidth : ℤ
  dstHeight : ℤ
  srcLeft : ℤ
  srcTop : ℤ
  srcWidth : ℤ
  srcHeight : ℤ
  z : ℤ
  deriving DecidableEq

structure Loop where
  native : Native
  placed : List Placed
  incompleteFrame : Bool

/-- The bitmap of a visible placement with the image's pixels in it; `none` makes
the frame incomplete. -/
def currentBitmap (n : Native) (p : Placement) (image : Image) : Native × Option ℕ :=
  if image.resident = false ∨ image.width = 0 ∨ image.height = 0 then (n, none)
  else match bitmapCacheFor n p.imageId image.width image.height p.creates with
    | (n, none) => (n, none)
    | (n, some c) =>
      if c.generation ≠ image.generation then
        match copyKittyPixelsToBitmap n c.bitmap p.imageId image p.locks with
        | none => (n, none)
        | some n => (n.put { c with generation := image.generation }, c.bitmap)
      else (n, c.bitmap)

def Call.place (call : Call) (p : Placement) (image : Image) (info : RenderInfo) (r : ℕ) : Placed where
  bitmap := r
  imageId := p.imageId
  generation := image.generation
  dstLeft := wrap32 (wrap32 (info.viewportCol * call.cellWidth) + p.xOffset)
  dstTop := wrap32 (wrap32 (info.viewportRow * call.cellHeight) + p.yOffset)
  dstWidth := wrap32 info.pixelWidth
  dstHeight := wrap32 info.pixelHeight
  srcLeft := wrap32 info.sourceX
  srcTop := wrap32 info.sourceY
  srcWidth := wrap32 info.sourceWidth
  srcHeight := wrap32 info.sourceHeight
  z := p.z

def Call.body (call : Call) (l : Loop) (p : Placement) : Loop :=
  match call.images p.imageId, p.renderInfo with
  | some image, some info =>
    match currentBitmap l.native p image with
    | (n, some r) => { l with native := n, placed := l.placed ++ [call.place p image info r] }
    | (n, none) => { l with native := n, incompleteFrame := true }
  | _, _ => l

def MAX_PLACEMENTS : ℕ := 16

def Call.loop (call : Call) : Loop → List Placement → Loop
  | l, [] => l
  | l, p :: ps =>
    if l.placed.length < call.capacity ∧ l.placed.length < MAX_PLACEMENTS then call.loop (call.body l p) ps
    else l

/-- The session afterwards and what the call stores, `none` when it leaves the frame as it is. -/
def updateKittyGraphics (n : Native) (call : Call) : Native × Option (List Placed) :=
  if !call.graphics ∨ call.capacity = 0 then (n, none)
  else
    let l := call.loop ⟨n, [], false⟩ call.placements
    if l.incompleteFrame then (l.native, none)
    else if l.placed.length = 0 ∧ call.previousCount > 0 ∧ call.receiving then (l.native, none)
    else (l.native, some l.placed)

/-- One call after another on a session. -/
def step (n : Native) (call : Call) : Option Native := some (updateKittyGraphics n call).1

/-- `p`'s reference is live, owned by the cache, and holds the pixels listed with it. -/
def Native.Holds (n : Native) (p : Placed) : Prop :=
  (∃ c ∈ n.cache, c.bitmap = some p.bitmap) ∧
    (n.refs p.bitmap).bind Bitmap.pixels = some (p.imageId, p.generation)

instance (n : Native) (p : Placed) : Decidable (n.Holds p) :=
  inferInstanceAs (Decidable ((∃ c ∈ n.cache, c.bitmap = some p.bitmap) ∧ _))

/-! The cache as a queue of image ids. -/

def evicted (queue : List ℕ) (id : ℕ) : Option ℕ :=
  if id ∈ queue ∨ queue.length < 2 then none else queue.head?

def enqueue (queue : List ℕ) (id : ℕ) : List ℕ :=
  if id ∈ queue then queue else if queue.length < 2 then queue ++ [id] else queue.tail ++ [id]

/-- Asking for `ids` in order never evicts an image asked for before, `seen` at first. -/
def SparesListed : List ℕ → List ℕ → List ℕ → Prop
  | _, _, [] => True
  | queue, seen, id :: ids =>
    (∀ v ∈ evicted queue id, v ∉ seen) ∧ SparesListed (enqueue queue id) (seen ++ [id]) ids

instance decidableSparesListed : ∀ queue seen ids, Decidable (SparesListed queue seen ids)
  | _, _, [] => isTrue trivial
  | queue, seen, id :: ids =>
    have := decidableSparesListed (enqueue queue id) (seen ++ [id]) ids
    inferInstanceAs (Decidable ((∀ v ∈ evicted queue id, v ∉ seen) ∧ _))

def Native.queue (n : Native) : List ℕ := n.cache.map KittyBitmapCache.imageId

/-- The image of a placement that the loop has to draw. -/
def Call.visible (call : Call) (p : Placement) : Option ℕ :=
  if (call.images p.imageId).isSome ∧ p.renderInfo.isSome then some p.imageId else none

/-- The images of the visible placements, as many as the loop takes. -/
def Call.listed (call : Call) : List ℕ :=
  (call.placements.filterMap call.visible).take (min call.capacity MAX_PLACEMENTS)

end Tinyhack.Kitty
