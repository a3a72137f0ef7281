import TinyhackSsh.Lib.IndexedWrites
import TinyhackSsh.Spec.KittyCache

/-! The loops of `copy_kitty_pixels_to_bitmap` with their machine arithmetic:
`uint32_t` indices inside a row, `size_t` of 64 bits (the app is built for arm64
only) for the strides. A copy is the list of what it does: the exact value of
every operation, the source bytes it reads and the bitmap bytes it writes, as
offsets. The two buffers do not overlap. -/

namespace Tinyhack.Kitty

inductive Effect
  /-- an operation on `uint32_t`, by its exact value -/
  | uint32 (exact : ℕ)
  /-- an operation on `size_t`, by its exact value -/
  | size (exact : ℕ)
  | read (offset : ℕ)
  | write (offset : ℕ) (value : UInt8)
  deriving DecidableEq

def Effect.write? : Effect → Option (ℕ × UInt8)
  | .write offset value => some (offset, value)
  | _ => none

structure AndroidBitmapInfo where
  /-- the format is `ANDROID_BITMAP_FORMAT_RGBA_8888` -/
  rgba8888 : Bool
  width : UInt32
  height : UInt32
  stride : UInt32
  deriving DecidableEq

structure CopyCall where
  /-- `bitmap` is not null -/
  bitmap : Bool
  /-- `source` is not null -/
  source : Bool
  sourceLen : UInt64
  width : UInt32
  height : UInt32
  format : Format
  /-- what `AndroidBitmap_getInfo` reports, if it succeeds -/
  info : Option AndroidBitmapInfo
  /-- `AndroidBitmap_lockPixels` succeeds -/
  locks : Bool
  deriving DecidableEq

/-- The `uint32_t` index `x * k + c`. -/
def index (x k c : ℕ) : ℕ := (x * k % 2 ^ 32 + c) % 2 ^ 32

def indexEffects (x k c : ℕ) : List Effect := [.uint32 (x * k), .uint32 (x * k % 2 ^ 32 + c)]

section Loops

variable (source : ℕ → UInt8)

/-- `dst[x * 4 + c] = src[x * k + d]`, for the rows at `dst` and `src`. -/
def copyByte (dst src x c k d : ℕ) : List Effect :=
  indexEffects x k d ++ [.read (src + index x k d)] ++
    indexEffects x 4 c ++ [.write (dst + index x 4 c) (source (src + index x k d))]

/-- `dst[x * 4 + c] = value`. -/
def setByte (dst x c : ℕ) (value : UInt8) : List Effect :=
  indexEffects x 4 c ++ [.write (dst + index x 4 c) value]

/-- The body of the loop over `x`. -/
def pixelEffects (format : Format) (dst src x : ℕ) : List Effect :=
  match format with
  | .rgb =>
    copyByte source dst src x 0 3 0 ++ copyByte source dst src x 1 3 1 ++ copyByte source dst src x 2 3 2 ++
      setByte dst x 3 0xFF
  | .grayAlpha =>
    copyByte source dst src x 2 2 0 ++ copyByte source dst src x 1 2 0 ++ copyByte source dst src x 0 2 0 ++
      copyByte source dst src x 3 2 1
  | _ =>
    copyByte source dst src x 2 1 0 ++ copyByte source dst src x 1 1 0 ++ copyByte source dst src x 0 1 0 ++
      setByte dst x 3 0xFF

def memcpy (dst src n : ℕ) : List Effect :=
  (List.range n).flatMap fun i => [.read (src + i), .write (dst + i) (source (src + i))]

/-- The body of the loop over `y`, for the rows at `dst` and `src`. -/
def rowEffects (format : Format) (width dst src : ℕ) : List Effect :=
  if format = .rgba then .size (width * 4) :: memcpy source dst src (width * 4 % 2 ^ 64)
  else (List.range width).flatMap (pixelEffects source format dst src)

/-- The loop over `y`. -/
def copyEffects (format : Format) (width height sourceStride stride : ℕ) : List Effect :=
  (List.range height).flatMap fun y =>
    [.size (y * sourceStride), .size (y * stride)] ++
      rowEffects source format width (y * stride % 2 ^ 64) (y * sourceStride % 2 ^ 64)

/-- `copy_kitty_pixels_to_bitmap`: its effects and its answer. -/
def copyKittyPixels (call : CopyCall) : List Effect × Bool :=
  if !call.bitmap || !call.source || call.width.toNat = 0 || call.height.toNat = 0 then ([], false)
  else
    match call.format.bpp with
    | none => ([], false)
    | some bpp =>
      let stride := call.width.toNat * bpp
      if stride % 2 ^ 64 > call.sourceLen.toNat / call.height.toNat then ([.size stride], false)
      else
        match call.info with
        | none => ([.size stride], false)
        | some info =>
          if !info.rgba8888 || info.width ≠ call.width || info.height ≠ call.height || !call.locks then
            ([.size stride], false)
          else
            (.size stride :: copyEffects source call.format call.width.toNat call.height.toNat (stride % 2 ^ 64)
              info.stride.toNat, true)

end Loops

/-- The bitmap's bytes afterwards. -/
def destination (mem : ℕ → UInt8) (effects : List Effect) : ℕ → UInt8 :=
  IndexedWrites.apply mem (effects.filterMap Effect.write?)

/-! What the formats mean. -/

structure Rgba where
  r : UInt8
  g : UInt8
  b : UInt8
  a : UInt8
  deriving DecidableEq

/-- The value of source pixel `i`. -/
def Format.pixel (source : ℕ → UInt8) (i : ℕ) : Format → Rgba
  | .rgba => ⟨source (i * 4), source (i * 4 + 1), source (i * 4 + 2), source (i * 4 + 3)⟩
  | .rgb => ⟨source (i * 3), source (i * 3 + 1), source (i * 3 + 2), 0xFF⟩
  | .grayAlpha => ⟨source (i * 2), source (i * 2), source (i * 2), source (i * 2 + 1)⟩
  | .gray => ⟨source i, source i, source i, 0xFF⟩
  | .other => ⟨0, 0, 0, 0⟩

/-- The pixel of the bitmap in column `x` of row `y`. -/
def bitmapPixel (mem : ℕ → UInt8) (stride x y : ℕ) : Rgba :=
  ⟨mem (y * stride + x * 4), mem (y * stride + x * 4 + 1), mem (y * stride + x * 4 + 2), mem (y * stride + x * 4 + 3)⟩

end Tinyhack.Kitty
