import Mathlib.Algebra.Ring.Nat
import PersonaOS.Foundation.StandsBehind
import PersonaOS.Foundation.Program
import PersonaOS.Foundation.Raster

/-! # The framebuffer

The renderer of `kernel/src/drivers/framebuffer.rs`: solid rectangles and text in a font of
8 by 16 pixels. Memory is what lies at `fb.base` and behind it. Coordinates are 32-bit
numbers, and an addition that does not fit panics. -/

namespace PersonaOS.Drivers

open Program

inductive PixelFormat where
  | bgrx8888
  | rgbx8888
  | unknown
  deriving DecidableEq, Repr

structure Framebuffer where
  width : UInt32
  height : UInt32
  /-- Bytes between the start of one scanline and the next. -/
  pitch : UInt32
  pixelFormat : PixelFormat

structure Screen where
  memory : Nat → UInt8
  /-- The pixels that were written so far, the last one first. -/
  puts : List (Nat × Nat)

/-- No operation fails, but some panic. -/
abbrev Draw := Program Screen Empty

/-- `a + b` on `u32` -/
def addU32 (a b : Nat) : Draw Nat := if a + b < 2 ^ 32 then pure (a + b) else abort

/-- `a.saturating_add(b)` on `u32` -/
def saturatingAddU32 (a b : Nat) : Nat := min (a + b) (2 ^ 32 - 1)

/-! ## The font -/

namespace Font

def missing : Vector UInt8 16 := #v[
  0x00, 0x7E, 0x42, 0x42, 0x42, 0x42, 0x42, 0x42, 0x42, 0x42, 0x42, 0x42, 0x7E, 0x00, 0x00, 0x00]

def space : Vector UInt8 16 := .replicate 16 0

def letterM : Vector UInt8 16 := #v[
  0x00, 0x00, 0xC3, 0xE7, 0xFF, 0xDB, 0xC3, 0xC3, 0xC3, 0xC3, 0xC3, 0xC3, 0x00, 0x00, 0x00, 0x00]

def letterO : Vector UInt8 16 := #v[
  0x00, 0x00, 0x3C, 0x66, 0xC3, 0xC3, 0xC3, 0xC3, 0xC3, 0xC3, 0x66, 0x3C, 0x00, 0x00, 0x00, 0x00]

def letterS : Vector UInt8 16 := #v[
  0x00, 0x00, 0x3E, 0x63, 0xC0, 0xC0, 0x78, 0x0E, 0x03, 0x03, 0xC6, 0x7C, 0x00, 0x00, 0x00, 0x00]

def lettera : Vector UInt8 16 := #v[
  0x00, 0x00, 0x00, 0x00, 0x00, 0x7C, 0x06, 0x7E, 0xC6, 0xC6, 0xC6, 0x7B, 0x00, 0x00, 0x00, 0x00]

def letterb : Vector UInt8 16 := #v[
  0xC0, 0xC0, 0xC0, 0xFC, 0xC6, 0xC3, 0xC3, 0xC3, 0xC3, 0xC6, 0xFC, 0x00, 0x00, 0x00, 0x00, 0x00]

def letterd : Vector UInt8 16 := #v[
  0x03, 0x03, 0x03, 0x3F, 0x63, 0xC3, 0xC3, 0xC3, 0xC3, 0x63, 0x3F, 0x00, 0x00, 0x00, 0x00, 0x00]

def lettere : Vector UInt8 16 := #v[
  0x00, 0x00, 0x00, 0x00, 0x00, 0x3C, 0x66, 0xC3, 0xFF, 0xC0, 0x63, 0x3E, 0x00, 0x00, 0x00, 0x00]

def letterf : Vector UInt8 16 := #v[
  0x1E, 0x33, 0x30, 0x30, 0xFC, 0x30, 0x30, 0x30, 0x30, 0x30, 0x30, 0x30, 0x00, 0x00, 0x00, 0x00]

def letterk : Vector UInt8 16 := #v[
  0xC0, 0xC0, 0xC0, 0xC6, 0xCC, 0xD8, 0xF0, 0xF8, 0xCC, 0xC6, 0xC3, 0x00, 0x00, 0x00, 0x00, 0x00]

def letterl : Vector UInt8 16 := #v[
  0x3C, 0x0C, 0x0C, 0x0C, 0x0C, 0x0C, 0x0C, 0x0C, 0x0C, 0x0C, 0x3F, 0x00, 0x00, 0x00, 0x00, 0x00]

def letterm : Vector UInt8 16 := #v[
  0x00, 0x00, 0x00, 0x00, 0x00, 0xEE, 0xFF, 0xDB, 0xDB, 0xDB, 0xDB, 0xDB, 0x00, 0x00, 0x00, 0x00]

def lettern : Vector UInt8 16 := #v[
  0x00, 0x00, 0x00, 0x00, 0x00, 0xFC, 0xC6, 0xC3, 0xC3, 0xC3, 0xC3, 0xC3, 0x00, 0x00, 0x00, 0x00]

def lettero : Vector UInt8 16 := #v[
  0x00, 0x00, 0x00, 0x00, 0x00, 0x3C, 0x66, 0xC3, 0xC3, 0xC3, 0x66, 0x3C, 0x00, 0x00, 0x00, 0x00]

def letterp : Vector UInt8 16 := #v[
  0x00, 0x00, 0x00, 0x00, 0x00, 0xFC, 0xC6, 0xC3, 0xC3, 0xC6, 0xFC, 0xC0, 0xC0, 0xC0, 0xC0, 0x00]

def letterr : Vector UInt8 16 := #v[
  0x00, 0x00, 0x00, 0x00, 0x00, 0xDE, 0xE3, 0xC0, 0xC0, 0xC0, 0xC0, 0xC0, 0x00, 0x00, 0x00, 0x00]

def letters : Vector UInt8 16 := #v[
  0x00, 0x00, 0x00, 0x00, 0x00, 0x7E, 0xC0, 0xE0, 0x3C, 0x07, 0xC3, 0xFE, 0x00, 0x00, 0x00, 0x00]

def lettert : Vector UInt8 16 := #v[
  0x00, 0x00, 0x18, 0x18, 0xFF, 0x18, 0x18, 0x18, 0x18, 0x18, 0x1B, 0x0E, 0x00, 0x00, 0x00, 0x00]

def letteru : Vector UInt8 16 := #v[
  0x00, 0x00, 0x00, 0x00, 0x00, 0xC3, 0xC3, 0xC3, 0xC3, 0xC3, 0xC7, 0x7B, 0x00, 0x00, 0x00, 0x00]

def lettery : Vector UInt8 16 := #v[
  0x00, 0x00, 0x00, 0x00, 0x00, 0xC3, 0xC3, 0xC3, 0xC3, 0x67, 0x3B, 0x03, 0xC6, 0x7C, 0x00, 0x00]

def digit1 : Vector UInt8 16 := #v[
  0x00, 0x00, 0x18, 0x38, 0x78, 0x18, 0x18, 0x18, 0x18, 0x18, 0x18, 0x7E, 0x00, 0x00, 0x00, 0x00]

def digitM0 : Vector UInt8 16 := #v[
  0x00, 0x00, 0x3C, 0x66, 0xC7, 0xCF, 0xDB, 0xF3, 0xE3, 0xC3, 0x66, 0x3C, 0x00, 0x00, 0x00, 0x00]

def comma : Vector UInt8 16 := #v[
  0x00, 0x00, 0x00, 0x00, 0x00, 0x00, 0x00, 0x00, 0x00, 0x00, 0x00, 0x1C, 0x1C, 0x0C, 0x18, 0x30]

def dash : Vector UInt8 16 := #v[
  0x00, 0x00, 0x00, 0x00, 0x00, 0x00, 0x00, 0x7E, 0x7E, 0x00, 0x00, 0x00, 0x00, 0x00, 0x00, 0x00]

def dot : Vector UInt8 16 := #v[
  0x00, 0x00, 0x00, 0x00, 0x00, 0x00, 0x00, 0x00, 0x00, 0x00, 0x00, 0x00, 0x00, 0x18, 0x18, 0x00]

/-- The rows of a character, with the leftmost pixel in the highest bit. -/
def glyph : Char → Vector UInt8 16
  | ' ' => space
  | 'M' => letterM
  | 'O' => letterO
  | 'S' => letterS
  | 'a' => lettera
  | 'b' => letterb
  | 'd' => letterd
  | 'e' => lettere
  | 'f' => letterf
  | 'k' => letterk
  | 'l' => letterl
  | 'm' => letterm
  | 'n' => lettern
  | 'o' => lettero
  | 'p' => letterp
  | 'r' => letterr
  | 's' => letters
  | 't' => lettert
  | 'u' => letteru
  | 'y' => lettery
  | '0' => digitM0
  | '1' => digit1
  | '-' => dash
  | ',' => comma
  | '.' => dot
  | _ => missing

/-- Bit `7 - col` of a row of the character. -/
def inked (ch : Char) (row col : Nat) : Bool :=
  ((glyph ch)[row]?.getD 0 >>> UInt8.ofNat (7 - col)) &&& 1 == 1

end Font

/-! ## Pixels -/

namespace Framebuffer

def encode (fb : Framebuffer) (rgb : UInt32) : UInt32 :=
  let r := rgb >>> 16 &&& 0xFF
  let g := rgb >>> 8 &&& 0xFF
  let b := rgb &&& 0xFF
  match fb.pixelFormat with
  | .bgrx8888 => r <<< 16 ||| g <<< 8 ||| b
  | .rgbx8888 => b <<< 16 ||| g <<< 8 ||| r
  | .unknown => rgb

/-- Where a pixel starts, from `fb.base`. -/
def offset (fb : Framebuffer) (x y : Nat) : Nat := y * fb.pitch.toNat + x * 4

def pixel (fb : Framebuffer) (memory : Nat → UInt8) (x y : Nat) : UInt32 :=
  Codec.u32.decode (window memory (fb.offset x y) 4)

/-- The offset is computed in `usize`. -/
def putRaw (fb : Framebuffer) (x y : Nat) (pixel : UInt32) : Draw Unit :=
  if fb.offset x y < 2 ^ 64 then
    modify fun screen =>
      { memory := patch screen.memory (fb.offset x y) (Codec.u32.encode pixel)
        puts := (x, y) :: screen.puts }
  else
    abort

def fillRect (fb : Framebuffer) (x y width height color : UInt32) : Draw Unit :=
  if fb.width ≤ x ∨ fb.height ≤ y ∨ width = 0 ∨ height = 0 then
    pure ()
  else
    let xEnd := min (saturatingAddU32 x.toNat width.toNat) fb.width.toNat
    let yEnd := min (saturatingAddU32 y.toNat height.toNat) fb.height.toNat
    let px := fb.encode color
    forRange (fun dy => forRange (fun dx => fb.putRaw dx dy px) (xEnd - x.toNat) x.toNat)
      (yEnd - y.toNat) y.toNat

def clear (fb : Framebuffer) (color : UInt32) : Draw Unit :=
  fb.fillRect 0 0 fb.width fb.height color

/-- One turn of the loops of `draw_char`. -/
def drawDot (fb : Framebuffer) (x y : Nat) (ch : Char) (px : UInt32) (row col : Nat) : Draw Unit :=
  if Font.inked ch row col then do
    let dx ← addU32 x col
    let dy ← addU32 y row
    if dx < fb.width.toNat ∧ dy < fb.height.toNat then
      fb.putRaw dx dy px
    else
      pure ()
  else
    pure ()

def drawChar (fb : Framebuffer) (x y : Nat) (ch : Char) (color : UInt32) : Draw Unit :=
  let px := fb.encode color
  forRange (fun row => forRange (fun col => fb.drawDot x y ch px row col) 8 0) 16 0

def newline : UInt8 := 10

def shown (byte : UInt8) : Char :=
  if 0x20 ≤ byte ∧ byte ≤ 0x7E then Char.ofNat byte.toNat else ' '

/-- The loop of `draw_bytes` over the bytes that are left. -/
def drawLoop (fb : Framebuffer) (x : Nat) (color : UInt32) :
    (cx y drawn : Nat) → List UInt8 → Draw Nat
  | _, _, drawn, [] => pure drawn
  | cx, y, drawn, byte :: text =>
    if byte = newline then do
      let below := saturatingAddU32 y 16
      let bottom ← addU32 below 16
      if fb.height.toNat < bottom then
        pure drawn
      else
        drawLoop fb x color x below drawn text
    else do
      let right ← addU32 cx 8
      if fb.width.toNat < right then
        pure drawn
      else
        fb.drawChar cx y (shown byte) color
        let next ← addU32 cx 8
        drawLoop fb x color next y (drawn + 1) text

def drawBytes (fb : Framebuffer) (x y : UInt32) (text : List UInt8) (color : UInt32) : Draw Nat :=
  fb.drawLoop x.toNat color x.toNat y.toNat 0 text

/-! ## Single pixels -/

section Pixels

variable {fb : Framebuffer} {screen : Screen} {x y : Nat}

def Covers (fb : Framebuffer) (x y position : Nat) : Prop :=
  fb.offset x y ≤ position ∧ position < fb.offset x y + 4

theorem offset_eq_cell (pixel : UInt32) :
    fb.offset x y = Raster.cell fb.pitch.toNat (Codec.u32.encode pixel).length x y := by
  rw [Codec.length_encode]
  rfl

theorem fits_of_lt (wide : 4 * fb.width.toNat ≤ fb.pitch.toNat) (inX : x < fb.width.toNat)
    (pixel : UInt32) :
    x * (Codec.u32.encode pixel).length + (Codec.u32.encode pixel).length ≤ fb.pitch.toNat := by
  rw [Codec.length_encode]
  change x * 4 + 4 ≤ fb.pitch.toNat
  omega

theorem offset_add_le (wide : 4 * fb.width.toNat ≤ fb.pitch.toNat) (inX : x < fb.width.toNat)
    (inY : y < fb.height.toNat) : fb.offset x y + 4 ≤ fb.pitch.toNat * fb.height.toNat := by
  have lastRow : (y + 1) * fb.pitch.toNat ≤ fb.height.toNat * fb.pitch.toNat :=
    Nat.mul_le_mul_right _ inY
  rw [Nat.add_mul, Nat.one_mul, Nat.mul_comm fb.height.toNat] at lastRow
  rw [offset]
  omega

theorem putRaw_of_lt (wide : 4 * fb.width.toNat ≤ fb.pitch.toNat) (inX : x < fb.width.toNat)
    (inY : y < fb.height.toNat) (pixel : UInt32) :
    fb.putRaw x y pixel screen =
      .ok () { memory := patch screen.memory (fb.offset x y) (Codec.u32.encode pixel)
               puts := (x, y) :: screen.puts } := by
  have inBuffer := offset_add_le wide inX inY
  have isSmall : fb.pitch.toNat * fb.height.toNat < 2 ^ 32 * 2 ^ 32 :=
    Nat.mul_lt_mul'' fb.pitch.toNat_lt fb.height.toNat_lt
  rw [putRaw, if_pos (by omega), modify_apply]

theorem covers_div_mod (fb : Framebuffer) (position : Nat) :
    fb.Covers (position % fb.pitch.toNat / 4) (position / fb.pitch.toNat) position := by
  have inRow := Nat.div_add_mod position fb.pitch.toNat
  have inPixel := Nat.div_add_mod (position % fb.pitch.toNat) 4
  have isRest := Nat.mod_lt (position % fb.pitch.toNat) (Nat.zero_lt_succ 3)
  rw [Nat.mul_comm] at inRow
  rw [Covers, offset]
  omega

/-- The pixels for which `inside` holds were written with one value, and nothing else. -/
structure Drawn (fb : Framebuffer) (pixel : UInt32) (inside : Nat → Nat → Prop)
    (before after : Screen) : Prop where
  painted : Raster.Painted fb.pitch.toNat (Codec.u32.encode pixel) inside before.memory after.memory
  puts : ∀ put, put ∈ after.puts → put ∈ before.puts ∨ inside put.1 put.2

variable {pixel : UInt32} {inside more : Nat → Nat → Prop} {before middle after : Screen}

theorem Drawn.nothing (isEmpty : ∀ column row, ¬ inside column row) :
    fb.Drawn pixel inside screen screen :=
  ⟨.nothing isEmpty _, fun _ isPut => .inl isPut⟩

theorem Drawn.trans (first : fb.Drawn pixel inside before middle)
    (second : fb.Drawn pixel more middle after) :
    fb.Drawn pixel (fun column row => inside column row ∨ more column row) before after where
  painted := first.painted.trans second.painted
  puts put isPut := by
    rcases second.puts put isPut with isEarlier | isIn
    · rcases first.puts put isEarlier with isFirst | isIn
      · exact .inl isFirst
      · exact .inr (.inl isIn)
    · exact .inr (.inr isIn)

theorem Drawn.congr (drawn : fb.Drawn pixel inside before after)
    (same : ∀ column row, inside column row ↔ more column row) :
    fb.Drawn pixel more before after where
  painted := drawn.painted.congr same
  puts put isPut := (drawn.puts put isPut).imp_right (same put.1 put.2).mp

theorem putRaw_meets (wide : 4 * fb.width.toNat ≤ fb.pitch.toNat) (inX : x < fb.width.toNat)
    (inY : y < fb.height.toNat) (pixel : UInt32) (screen : Screen) :
    (fb.putRaw x y pixel screen).Meets
      (fun _ => fb.Drawn pixel (fun column row => column = x ∧ row = y) screen)
      (fun _ _ => False) False := by
  rw [putRaw_of_lt wide inX inY, Outcome.meets_ok]
  constructor
  · have hasSize : 0 < (Codec.u32.encode pixel).length := by
      rw [Codec.length_encode]
      exact Nat.zero_lt_succ 3
    rw [offset_eq_cell pixel]
    exact Raster.painted_patch hasSize (fits_of_lt wide inX pixel) screen.memory
  · intro put isPut
    rcases List.mem_cons.mp isPut with rfl | isEarlier
    · exact .inr ⟨rfl, rfl⟩
    · exact .inl isEarlier

theorem Drawn.pixel_inside (drawn : fb.Drawn pixel inside before after)
    (wide : 4 * fb.width.toNat ≤ fb.pitch.toNat) (inX : x < fb.width.toNat) (isIn : inside x y) :
    fb.pixel after.memory x y = pixel := by
  have isPixel := drawn.painted.window_inside (fits_of_lt wide inX pixel) isIn
  rw [← offset_eq_cell pixel, Codec.length_encode] at isPixel
  exact (congrArg Codec.u32.decode isPixel).trans (Codec.u32.decode_encode pixel)

theorem Drawn.pixel_outside (drawn : fb.Drawn pixel inside before after)
    (wide : 4 * fb.width.toNat ≤ fb.pitch.toNat) (inX : x < fb.width.toNat)
    (isOut : ¬ inside x y) : fb.pixel after.memory x y = fb.pixel before.memory x y := by
  have isPixel := drawn.painted.window_outside (fits_of_lt wide inX pixel) isOut
  rw [← offset_eq_cell pixel, Codec.length_encode] at isPixel
  exact congrArg Codec.u32.decode isPixel

theorem Drawn.kept (drawn : fb.Drawn pixel inside before after) {position : Nat}
    (isOut : ∀ column row, inside column row → ¬ fb.Covers column row position) :
    after.memory position = before.memory position := by
  apply drawn.painted.kept position
  intro isIn
  rw [Codec.length_encode] at isIn
  exact isOut _ _ isIn (covers_div_mod fb position)

end Pixels

/-! ## Rectangles -/

section Rectangles

variable {fb : Framebuffer}

theorem fillRow_meets (wide : 4 * fb.width.toNat ≤ fb.pitch.toNat) {count start dy : Nat}
    (inX : start + count ≤ fb.width.toNat) (inY : dy < fb.height.toNat) (px : UInt32)
    (screen : Screen) :
    (forRange (fun dx => fb.putRaw dx dy px) count start screen).Meets
      (fun _ => fb.Drawn px
        (fun column row => start ≤ column ∧ column < start + count ∧ row = dy) screen)
      (fun _ _ => False) False := by
  apply Outcome.Meets.forRange
    (fun dx => fb.Drawn px (fun column row => start ≤ column ∧ column < dx ∧ row = dy) screen)
  · exact Drawn.nothing (by omega)
  · intro dx current behind before drawn
    apply (putRaw_meets wide (by omega) inY px current).imp
    intro _ after isPut
    exact (drawn.trans isPut).congr (by omega)

theorem fillRows_meets (wide : 4 * fb.width.toNat ≤ fb.pitch.toNat) {columns rows x y : Nat}
    (inX : x + columns ≤ fb.width.toNat) (inY : y + rows ≤ fb.height.toNat) (px : UInt32)
    (screen : Screen) :
    (forRange (fun dy => forRange (fun dx => fb.putRaw dx dy px) columns x) rows y screen).Meets
      (fun _ => fb.Drawn px
        (fun column row => x ≤ column ∧ column < x + columns ∧ y ≤ row ∧ row < y + rows) screen)
      (fun _ _ => False) False := by
  apply Outcome.Meets.forRange
    (fun dy => fb.Drawn px
      (fun column row => x ≤ column ∧ column < x + columns ∧ y ≤ row ∧ row < dy) screen)
  · exact Drawn.nothing (by omega)
  · intro dy current behind before drawn
    apply (fillRow_meets wide inX (by omega) px current).imp
    intro _ after isRow
    exact (drawn.trans isRow).congr (by omega)

def InRect (fb : Framebuffer) (x y width height column row : Nat) : Prop :=
  column < fb.width.toNat ∧ row < fb.height.toNat ∧
    (x ≤ column ∧ column < x + width) ∧ y ≤ row ∧ row < y + height

theorem fillRect_meets (wide : 4 * fb.width.toNat ≤ fb.pitch.toNat)
    (x y width height color : UInt32) (screen : Screen) :
    (fb.fillRect x y width height color screen).Meets
      (fun _ => fb.Drawn (fb.encode color)
        (fb.InRect x.toNat y.toNat width.toNat height.toNat) screen)
      (fun _ _ => False) False := by
  have xSmall := fb.width.toNat_lt
  have ySmall := fb.height.toNat_lt
  simp only [fillRect, UInt32.le_iff_toNat_le, ← UInt32.toNat_inj, UInt32.toNat_zero]
  split
  · next isEmpty =>
    apply Drawn.nothing
    intro column row
    rw [InRect]
    omega
  · next isProper =>
    rw [saturatingAddU32, saturatingAddU32]
    apply (fillRows_meets wide (by omega) (by omega) (fb.encode color) screen).imp
    intro _ after drawn
    apply drawn.congr
    intro column row
    rw [InRect]
    omega

/-- Filling a rectangle always returns. The pixels of the screen inside the rectangle then
have the color, and the others and all other bytes are what they were. Nothing else was
written. -/
theorem fillRect_exact (fb : Framebuffer) (wide : 4 * fb.width.toNat ≤ fb.pitch.toNat)
    (x y width height color : UInt32) (screen : Screen) :
    ∃ after, fb.fillRect x y width height color screen = .ok () after ∧
      (∀ px py, px < fb.width.toNat → py < fb.height.toNat →
        fb.pixel after.memory px py =
          if (x.toNat ≤ px ∧ px < x.toNat + width.toNat) ∧
              y.toNat ≤ py ∧ py < y.toNat + height.toNat then
            fb.encode color
          else
            fb.pixel screen.memory px py) ∧
      (∀ position,
        (∀ px py, fb.InRect x.toNat y.toNat width.toNat height.toNat px py →
          ¬ fb.Covers px py position) →
        after.memory position = screen.memory position) ∧
      (∀ put, put ∈ after.puts →
        put ∈ screen.puts ∨ fb.InRect x.toNat y.toNat width.toNat height.toNat put.1 put.2) ∧
      ∀ position, fb.pitch.toNat * fb.height.toNat ≤ position →
        after.memory position = screen.memory position := by
  rcases (fillRect_meets wide x y width height color screen).returns with
    ⟨_, after, returns, drawn⟩
  refine ⟨after, returns, ?_, fun position isOut => drawn.kept isOut, drawn.puts, ?_⟩
  · intro px py inX inY
    split
    · next inRect => exact drawn.pixel_inside wide inX ⟨inX, inY, inRect⟩
    · next isOut => exact drawn.pixel_outside wide inX fun isIn => isOut isIn.2.2
  · intro position behind
    apply drawn.kept
    intro px py isIn covers
    have inBuffer := offset_add_le wide isIn.1 isIn.2.1
    exact absurd covers.2 (by omega)

/-- A rectangle that is wider than 32-bit numbers reach colors the second of two pixels. -/
theorem fillRect_exact_wide :
    ∃ fb : Framebuffer, 4 * fb.width.toNat ≤ fb.pitch.toNat ∧
      ∃ after, fb.fillRect 1 0 0xFFFFFFFF 1 0xFF8000 ⟨fun _ => 7, []⟩ = .ok () after ∧
        fb.pixel after.memory 0 0 = 0x07070707 ∧ fb.pixel after.memory 1 0 = 0x0080FF := by
  let fb : Framebuffer := { width := 2, height := 1, pitch := 9, pixelFormat := .rgbx8888 }
  have wide : 4 * fb.width.toNat ≤ fb.pitch.toNat := by decide
  rcases fillRect_exact fb wide 1 0 0xFFFFFFFF 1 0xFF8000 ⟨fun _ => 7, []⟩ with
    ⟨after, returns, pixels, _⟩
  refine ⟨fb, wide, after, returns, ?_, ?_⟩
  · rw [pixels 0 0 (by decide) (by decide), if_neg (by decide)]
    decide
  · rw [pixels 1 0 (by decide) (by decide), if_pos (by decide)]
    decide

end Rectangles

/-! ## Characters -/

section Characters

variable {fb : Framebuffer} {x y : Nat}

theorem addU32_of_lt {a b : Nat} (small : a + b < 2 ^ 32) : addU32 a b = pure (a + b) :=
  if_pos small

theorem addU32_of_le {a b : Nat} (large : 2 ^ 32 ≤ a + b) : addU32 a b = abort :=
  if_neg (Nat.not_lt.mpr large)

/-- The pixels on the screen of those dots of a character that `dots` holds for. -/
def InGlyph (fb : Framebuffer) (x y : Nat) (ch : Char) (dots : Nat → Nat → Prop)
    (column row : Nat) : Prop :=
  ∃ i j, dots i j ∧ Font.inked ch i j = true ∧ column = x + j ∧ row = y + i ∧
    column < fb.width.toNat ∧ row < fb.height.toNat

theorem inGlyph_or {ch : Char} {dots more both : Nat → Nat → Prop}
    (same : ∀ i j, dots i j ∨ more i j ↔ both i j) (column row : Nat) :
    fb.InGlyph x y ch dots column row ∨ fb.InGlyph x y ch more column row ↔
      fb.InGlyph x y ch both column row := by
  constructor
  · intro isIn
    rcases isIn with ⟨i, j, isDot, rest⟩ | ⟨i, j, isDot, rest⟩
    · exact ⟨i, j, (same i j).mp (.inl isDot), rest⟩
    · exact ⟨i, j, (same i j).mp (.inr isDot), rest⟩
  · intro isIn
    rcases isIn with ⟨i, j, isDot, rest⟩
    rcases (same i j).mpr isDot with isFirst | isSecond
    · exact .inl ⟨i, j, isFirst, rest⟩
    · exact .inr ⟨i, j, isSecond, rest⟩

theorem not_inGlyph {ch : Char} {dots : Nat → Nat → Prop} (isEmpty : ∀ i j, ¬ dots i j)
    (column row : Nat) : ¬ fb.InGlyph x y ch dots column row := by
  intro isIn
  rcases isIn with ⟨i, j, isDot, _⟩
  exact isEmpty i j isDot

theorem drawDot_meets (wide : 4 * fb.width.toNat ≤ fb.pitch.toNat) (ch : Char) (px : UInt32)
    {row col : Nat} (fitsX : x + col < 2 ^ 32)
    (fitsY : Font.inked ch row col = true → y + row < 2 ^ 32) (screen : Screen) :
    (fb.drawDot x y ch px row col screen).Meets
      (fun _ => fb.Drawn px (fb.InGlyph x y ch fun i j => i = row ∧ j = col) screen)
      (fun _ _ => False) False := by
  rw [drawDot]
  split
  · next isInked =>
    rw [addU32_of_lt fitsX, addU32_of_lt (fitsY isInked), pure_bind_apply, pure_bind_apply]
    split
    · next onScreen =>
      apply (putRaw_meets wide onScreen.1 onScreen.2 px screen).imp
      intro _ after drawn
      apply drawn.congr
      intro column row
      constructor
      · intro isPut
        rcases isPut with ⟨rfl, rfl⟩
        exact ⟨_, _, ⟨rfl, rfl⟩, isInked, rfl, rfl, onScreen⟩
      · intro isIn
        rcases isIn with ⟨_, _, ⟨rfl, rfl⟩, _, rfl, rfl, _⟩
        exact ⟨rfl, rfl⟩
    · next offScreen =>
      apply Drawn.nothing
      intro column row isIn
      rcases isIn with ⟨_, _, ⟨rfl, rfl⟩, _, rfl, rfl, onScreen⟩
      exact offScreen onScreen
  · next isBlank =>
    apply Drawn.nothing
    intro column row isIn
    rcases isIn with ⟨_, _, ⟨rfl, rfl⟩, isInked, _⟩
    exact isBlank isInked

theorem drawRow_meets (wide : 4 * fb.width.toNat ≤ fb.pitch.toNat) (ch : Char) (px : UInt32)
    {row : Nat} (fitsX : x + 8 ≤ 2 ^ 32)
    (fitsY : ∀ col, col < 8 → Font.inked ch row col = true → y + row < 2 ^ 32) (screen : Screen) :
    (forRange (fun col => fb.drawDot x y ch px row col) 8 0 screen).Meets
      (fun _ => fb.Drawn px (fb.InGlyph x y ch fun i j => i = row ∧ j < 8) screen)
      (fun _ _ => False) False := by
  apply Outcome.Meets.forRange
    (fun col => fb.Drawn px (fb.InGlyph x y ch fun i j => i = row ∧ j < col) screen)
  · exact Drawn.nothing (not_inGlyph (by omega))
  · intro col current _ before drawn
    apply (drawDot_meets wide ch px (by omega) (fitsY col (by omega)) current).imp
    intro _ after isDot
    exact (drawn.trans isDot).congr (inGlyph_or (by omega))

theorem drawChar_meets (wide : 4 * fb.width.toNat ≤ fb.pitch.toNat) (ch : Char) (color : UInt32)
    (fitsX : x + 8 ≤ 2 ^ 32)
    (fitsY : ∀ row col, row < 16 → col < 8 → Font.inked ch row col = true → y + row < 2 ^ 32)
    (screen : Screen) :
    (fb.drawChar x y ch color screen).Meets
      (fun _ => fb.Drawn (fb.encode color) (fb.InGlyph x y ch fun i j => i < 16 ∧ j < 8) screen)
      (fun _ _ => False) False := by
  rw [drawChar]
  apply Outcome.Meets.forRange
    (fun row => fb.Drawn (fb.encode color) (fb.InGlyph x y ch fun i j => i < row ∧ j < 8) screen)
  · exact Drawn.nothing (not_inGlyph (by omega))
  · intro row current _ before drawn
    apply (drawRow_meets wide ch _ fitsX (fun col => fitsY row col (by omega)) current).imp
    intro _ after isRow
    exact (drawn.trans isRow).congr (inGlyph_or (by omega))

theorem drawChar_eq_panic {ch : Char} {row col : Nat} (inRows : row < 16) (inColumns : col < 8)
    (isInked : Font.inked ch row col = true) (fitsX : x + 8 ≤ 2 ^ 32) (tooLow : 2 ^ 32 ≤ y + row)
    (color : UInt32) (screen : Screen) : fb.drawChar x y ch color screen = .panic := by
  rw [drawChar]
  apply Outcome.forRange_eq_panic Empty.elim (Nat.zero_le row) (by omega)
  intro current
  apply Outcome.forRange_eq_panic Empty.elim (Nat.zero_le col) (by omega)
  intro current
  rw [drawDot, if_pos isInked, addU32_of_lt (by omega), addU32_of_le tooLow]
  rfl

end Characters

/-! ## Text

The pen is where the next character goes. It is followed here in unbounded numbers, from the
bytes that came before. -/

section Text

def charsInLine (before : List UInt8) : Nat :=
  (before.reverse.takeWhile fun byte => byte != newline).length

def penX (x : Nat) (before : List UInt8) : Nat := x + 8 * charsInLine before

def penY (y : Nat) (before : List UInt8) : Nat := y + 16 * before.count newline

/-- The byte does not end the drawing: there is another line on the screen, or the character
fits into the line. -/
def GoesOn (fb : Framebuffer) (x y : Nat) (before : List UInt8) (byte : UInt8) : Prop :=
  if byte = newline then penY y before + 32 ≤ fb.height.toNat
  else penX x before + 8 ≤ fb.width.toNat

def Reached (fb : Framebuffer) (x y : Nat) (before : List UInt8) : Prop :=
  ∀ earlier byte, StandsBehind before earlier byte → fb.GoesOn x y earlier byte

/-- At this byte a coordinate leaves the 32-bit numbers. -/
def Overflows (fb : Framebuffer) (x y : Nat) (before : List UInt8) (byte : UInt8) : Prop :=
  if byte = newline then 2 ^ 32 ≤ penY y before + 32
  else
    2 ^ 32 ≤ penX x before + 8 ∨
      penX x before + 8 ≤ fb.width.toNat ∧
        ∃ row col, row < 16 ∧ col < 8 ∧ Font.inked (shown byte) row col = true ∧
          2 ^ 32 ≤ penY y before + row

def InCell (fb : Framebuffer) (x y : Nat) (before : List UInt8) (byte : UInt8)
    (column row : Nat) : Prop :=
  byte ≠ newline ∧ fb.Reached x y before ∧ penX x before + 8 ≤ fb.width.toNat ∧
    fb.InGlyph (penX x before) (penY y before) (shown byte) (fun i j => i < 16 ∧ j < 8) column row

variable {fb : Framebuffer} {x y : Nat} {before : List UInt8} {byte : UInt8}

theorem reached_nil (fb : Framebuffer) (x y : Nat) : fb.Reached x y [] := by
  intro earlier byte follows
  exact absurd follows not_standsBehind_nil

theorem reached_concat :
    fb.Reached x y (before ++ [byte]) ↔ fb.Reached x y before ∧ fb.GoesOn x y before byte := by
  constructor
  · intro reached
    refine ⟨?_, reached before byte (standsBehind_concat.mpr (.inr ⟨rfl, rfl⟩))⟩
    intro earlier other follows
    exact reached earlier other (standsBehind_concat.mpr (.inl follows))
  · intro both earlier other follows
    rcases standsBehind_concat.mp follows with isEarlier | ⟨rfl, rfl⟩
    · exact both.1 earlier other isEarlier
    · exact both.2

theorem Reached.of_append {more : List UInt8} (reached : fb.Reached x y (before ++ more)) :
    fb.Reached x y before := by
  intro earlier byte follows
  exact reached earlier byte (follows.append more)

theorem penX_newline : penX x (before ++ [newline]) = x := by
  simp [penX, charsInLine]

theorem penY_newline : penY y (before ++ [newline]) = penY y before + 16 := by
  simp [penY]
  omega

theorem penX_char (isChar : byte ≠ newline) : penX x (before ++ [byte]) = penX x before + 8 := by
  simp [penX, charsInLine, isChar]
  omega

theorem penY_char (isChar : byte ≠ newline) : penY y (before ++ [byte]) = penY y before := by
  simp [penY, List.count_append, isChar]

theorem not_reached_of_stop {more : List UInt8} (stops : ¬ fb.GoesOn x y before byte) :
    ¬ fb.Reached x y (before ++ [byte] ++ more) :=
  fun reached => stops (reached_concat.mp reached.of_append).2

/-- The cells of the characters that are drawn of the text behind `before`. -/
def InCells (fb : Framebuffer) (x y : Nat) (before text : List UInt8) (column row : Nat) : Prop :=
  ∃ more byte, StandsBehind text more byte ∧ fb.InCell x y (before ++ more) byte column row

/-- Some byte that is reached in the text behind `before` makes a coordinate overflow. -/
def OverflowsIn (fb : Framebuffer) (x y : Nat) (before text : List UInt8) : Prop :=
  ∃ more byte, StandsBehind text more byte ∧ fb.Reached x y (before ++ more) ∧
    fb.Overflows x y (before ++ more) byte

theorem inCells_cons {first : UInt8} {text : List UInt8} (column row : Nat) :
    fb.InCells x y before (first :: text) column row ↔
      fb.InCell x y before first column row ∨
        fb.InCells x y (before ++ [first]) text column row :=
  exists_standsBehind_cons fun before byte => fb.InCell x y before byte column row

theorem overflowsIn_cons {first : UInt8} {text : List UInt8} :
    fb.OverflowsIn x y before (first :: text) ↔
      (fb.Reached x y before ∧ fb.Overflows x y before first) ∨
        fb.OverflowsIn x y (before ++ [first]) text :=
  exists_standsBehind_cons fun before byte => fb.Reached x y before ∧ fb.Overflows x y before byte

theorem not_inCells_of_stop {text : List UInt8} (stops : ¬ fb.GoesOn x y before byte)
    (column row : Nat) : ¬ fb.InCells x y before (byte :: text) column row := by
  intro isIn
  rcases (inCells_cons column row).mp isIn with isFirst | ⟨more, other, _, isLater⟩
  · apply stops
    rw [GoesOn, if_neg isFirst.1]
    exact isFirst.2.2.1
  · exact not_reached_of_stop stops isLater.2.1

theorem inCell_iff (isChar : byte ≠ newline) (reached : fb.Reached x y before)
    (fits : penX x before + 8 ≤ fb.width.toNat) (column row : Nat) :
    fb.InCell x y before byte column row ↔
      fb.InGlyph (penX x before) (penY y before) (shown byte) (fun i j => i < 16 ∧ j < 8)
        column row :=
  ⟨fun isIn => isIn.2.2.2, fun isIn => ⟨isChar, reached, fits, isIn⟩⟩

theorem goesOn_newline :
    fb.GoesOn x y before newline ↔ penY y before + 32 ≤ fb.height.toNat := by
  rw [GoesOn, if_pos rfl]

theorem goesOn_char (isChar : byte ≠ newline) :
    fb.GoesOn x y before byte ↔ penX x before + 8 ≤ fb.width.toNat := by
  rw [GoesOn, if_neg isChar]

instance (fb : Framebuffer) (x y : Nat) (before : List UInt8) (byte : UInt8) :
    Decidable (fb.GoesOn x y before byte) :=
  inferInstanceAs (Decidable (if byte = newline then _ else _))

variable {color : UInt32} {text : List UInt8} {drawn : Nat} {screen : Screen}

theorem drawLoop_newline (fits : penY y before + 32 < 2 ^ 32) :
    fb.drawLoop x color (penX x before) (penY y before) drawn (newline :: text) screen =
      if fb.GoesOn x y before newline then
        fb.drawLoop x color (penX x (before ++ [newline])) (penY y (before ++ [newline])) drawn text
          screen
      else
        .ok drawn screen := by
  have isBelow : saturatingAddU32 (penY y before) 16 = penY y before + 16 := by
    rw [saturatingAddU32]
    omega
  simp only [drawLoop, if_true, isBelow, penX_newline, penY_newline, goesOn_newline]
  rw [addU32_of_lt (by omega), pure_bind_apply]
  by_cases room : penY y before + 32 ≤ fb.height.toNat
  · rw [if_pos room, if_neg (by omega)]
  · rw [if_neg room, if_pos (by omega), pure_apply]

theorem drawLoop_char (isChar : byte ≠ newline) (fits : penX x before + 8 < 2 ^ 32) :
    fb.drawLoop x color (penX x before) (penY y before) drawn (byte :: text) screen =
      if fb.GoesOn x y before byte then
        (fb.drawChar (penX x before) (penY y before) (shown byte) color >>= fun _ =>
          fb.drawLoop x color (penX x (before ++ [byte])) (penY y (before ++ [byte])) (drawn + 1)
            text) screen
      else
        .ok drawn screen := by
  simp only [goesOn_char isChar, penX_char isChar, penY_char isChar]
  rw [drawLoop, if_neg isChar, addU32_of_lt fits, pure_bind_apply]
  by_cases room : penX x before + 8 ≤ fb.width.toNat
  · rw [if_pos room, if_neg (Nat.not_lt.mpr room)]
    rfl
  · rw [if_neg room, if_pos (Nat.lt_of_not_le room), pure_apply]

theorem drawLoop_meets (wide : 4 * fb.width.toNat ≤ fb.pitch.toNat) (color : UInt32)
    (reached : fb.Reached x y before) (safe : ¬ fb.OverflowsIn x y before text) (drawn : Nat)
    (screen : Screen) :
    (fb.drawLoop x color (penX x before) (penY y before) drawn text screen).Meets
      (fun _ => fb.Drawn (fb.encode color) (fb.InCells x y before text) screen)
      (fun _ _ => False) False := by
  induction text generalizing before drawn screen with
  | nil =>
    apply Drawn.nothing
    intro column row isIn
    rcases isIn with ⟨more, byte, follows, _⟩
    exact not_standsBehind_nil follows
  | cons byte text induction =>
    have fine : ¬ fb.Overflows x y before byte := fun overflows =>
      safe (overflowsIn_cons.mpr (.inl ⟨reached, overflows⟩))
    have safeRest : ¬ fb.OverflowsIn x y (before ++ [byte]) text := fun overflows =>
      safe (overflowsIn_cons.mpr (.inr overflows))
    by_cases goesOn : fb.GoesOn x y before byte
    · have next := induction (reached_concat.mpr ⟨reached, goesOn⟩) safeRest
      by_cases isNewline : byte = newline
      · subst isNewline
        rw [Overflows, if_pos rfl, Nat.not_le] at fine
        rw [drawLoop_newline fine, if_pos goesOn]
        apply (next drawn screen).imp
        intro _ after isDrawn
        apply isDrawn.congr
        intro column row
        rw [inCells_cons]
        exact ⟨.inr, fun isIn => isIn.resolve_left fun isFirst => isFirst.1 rfl⟩
      · have fits := (goesOn_char isNewline).mp goesOn
        have small : penX x before + 8 < 2 ^ 32 := Nat.lt_of_le_of_lt fits fb.width.toNat_lt
        have fitsY : ∀ row col, row < 16 → col < 8 →
            Font.inked (shown byte) row col = true → penY y before + row < 2 ^ 32 := by
          intro row col inRows inColumns isInked
          rw [Overflows, if_neg isNewline] at fine
          apply Nat.lt_of_not_le
          exact fun low => fine (.inr ⟨fits, row, col, inRows, inColumns, isInked, low⟩)
        rw [drawLoop_char isNewline small, if_pos goesOn]
        apply (drawChar_meets wide (shown byte) color (Nat.le_of_lt small) fitsY screen).bind
        intro _ middle isChar
        apply (next (drawn + 1) middle).imp
        intro _ after isDrawn
        apply (isChar.trans isDrawn).congr
        intro column row
        rw [inCells_cons, inCell_iff isNewline reached fits]
    · have stops : fb.drawLoop x color (penX x before) (penY y before) drawn (byte :: text)
          screen = .ok drawn screen := by
        by_cases isNewline : byte = newline
        · subst isNewline
          rw [Overflows, if_pos rfl, Nat.not_le] at fine
          rw [drawLoop_newline fine, if_neg goesOn]
        · rw [Overflows, if_neg isNewline] at fine
          have small : penX x before + 8 < 2 ^ 32 :=
            Nat.lt_of_not_le fun large => fine (.inl large)
          rw [drawLoop_char isNewline small, if_neg goesOn]
      rw [stops]
      exact Drawn.nothing (not_inCells_of_stop goesOn)

theorem drawLoop_eq_panic (overflows : fb.OverflowsIn x y before text) (color : UInt32)
    (drawn : Nat) (screen : Screen) :
    fb.drawLoop x color (penX x before) (penY y before) drawn text screen = .panic := by
  induction text generalizing before drawn screen with
  | nil =>
    rcases overflows with ⟨more, byte, follows, _⟩
    exact absurd follows not_standsBehind_nil
  | cons byte text induction =>
    rcases overflowsIn_cons.mp overflows with ⟨reached, isFirst⟩ | isLater
    · rw [Overflows] at isFirst
      split at isFirst
      · next isNewline =>
        have large : 2 ^ 32 ≤ saturatingAddU32 (penY y before) 16 + 16 := by
          rw [saturatingAddU32]
          omega
        rw [drawLoop, if_pos isNewline]
        simp only [addU32_of_le large]
        rfl
      · next isChar =>
        by_cases large : 2 ^ 32 ≤ penX x before + 8
        · rw [drawLoop, if_neg isChar, addU32_of_le large]
          rfl
        · rcases isFirst.resolve_left large with
            ⟨fits, row, col, inRows, inColumns, isInked, tooLow⟩
          rw [drawLoop_char isChar (by omega), if_pos ((goesOn_char isChar).mpr fits),
            bind_apply, drawChar_eq_panic inRows inColumns isInked (by omega) tooLow]
    · have goesOn : fb.GoesOn x y before byte := by
        rcases isLater with ⟨more, other, _, reached, _⟩
        exact (reached_concat.mp reached.of_append).2
      by_cases isNewline : byte = newline
      · subst isNewline
        have small : penY y before + 32 < 2 ^ 32 :=
          Nat.lt_of_le_of_lt (goesOn_newline.mp goesOn) fb.height.toNat_lt
        rw [drawLoop_newline small, if_pos goesOn]
        exact induction isLater drawn screen
      · have small : penX x before + 8 < 2 ^ 32 :=
          Nat.lt_of_le_of_lt ((goesOn_char isNewline).mp goesOn) fb.width.toNat_lt
        rw [drawLoop_char isNewline small, if_pos goesOn]
        exact Outcome.bind_eq_panic Empty.elim (fun _ => induction isLater (drawn + 1)) screen

/-- Drawing a text returns and stays in the cells of its characters if and only if no byte
that is reached overflows. -/
theorem drawBytes_in_cells_iff (fb : Framebuffer) (wide : 4 * fb.width.toNat ≤ fb.pitch.toNat)
    (x y : UInt32) (text : List UInt8) (color : UInt32) (screen : Screen) :
    (∃ drawn after, fb.drawBytes x y text color screen = .ok drawn after ∧
      (∀ put, put ∈ after.puts → put ∈ screen.puts ∨
        ∃ before byte, StandsBehind text before byte ∧
          fb.InCell x.toNat y.toNat before byte put.1 put.2) ∧
      ∀ position,
        (∀ column row, (∃ before byte, StandsBehind text before byte ∧
          fb.InCell x.toNat y.toNat before byte column row) → ¬ fb.Covers column row position) →
        after.memory position = screen.memory position) ↔
      ∀ before byte, StandsBehind text before byte → fb.Reached x.toNat y.toNat before →
        ¬ fb.Overflows x.toNat y.toNat before byte := by
  constructor
  · intro draws before byte follows reached overflows
    rcases draws with ⟨drawn, after, returns, _⟩
    have overflowsIn : fb.OverflowsIn x.toNat y.toNat [] text :=
      ⟨before, byte, follows, reached, overflows⟩
    have panics := drawLoop_eq_panic overflowsIn color 0 screen
    cases panics.symm.trans returns
  · intro fine
    have safe : ¬ fb.OverflowsIn x.toNat y.toNat [] text := by
      intro overflowsIn
      rcases overflowsIn with ⟨before, byte, follows, reached, overflows⟩
      exact fine before byte follows reached overflows
    have meets := drawLoop_meets wide color (reached_nil fb x.toNat y.toNat) safe 0 screen
    rcases meets.returns with ⟨drawn, after, returns, isDrawn⟩
    exact ⟨drawn, after, returns, isDrawn.puts, fun position isOut => isDrawn.kept isOut⟩

def tiny : Framebuffer := { width := 8, height := 16, pitch := 32, pixelFormat := .bgrx8888 }

def blank : Screen := { memory := fun _ => 0, puts := [] }

/-- One letter at the origin fills its cell. -/
theorem drawBytes_in_cells_letter :
    4 * tiny.width.toNat ≤ tiny.pitch.toNat ∧
      ∃ drawn after, tiny.drawBytes 0 0 [0x4D] 0xFFFFFF blank = .ok drawn after ∧
        ∀ put, put ∈ after.puts → put.1 < 8 ∧ put.2 < 16 := by
  have wide : 4 * tiny.width.toNat ≤ tiny.pitch.toNat := by decide
  refine ⟨wide, ?_⟩
  have fine : ∀ before byte, StandsBehind [0x4D] before byte → tiny.Reached 0 0 before →
      ¬ tiny.Overflows 0 0 before byte := by
    intro before byte follows _ overflows
    rcases standsBehind_cons.mp follows with ⟨rfl, rfl⟩ | ⟨_, _, followsRest⟩
    · rw [Overflows, if_neg (by decide)] at overflows
      rcases overflows with tooFar | ⟨_, row, col, inRows, _, _, tooLow⟩
      · exact absurd tooFar (by decide)
      · change 2 ^ 32 ≤ 0 + row at tooLow
        omega
    · exact absurd followsRest not_standsBehind_nil
  rcases (drawBytes_in_cells_iff tiny wide 0 0 [0x4D] 0xFFFFFF blank).mpr fine with
    ⟨drawn, after, returns, puts, _⟩
  refine ⟨drawn, after, returns, ?_⟩
  intro put isPut
  rcases (puts put isPut).resolve_left List.not_mem_nil with
    ⟨before, byte, _, _, _, _, _, _, _, _, _, _, onScreen⟩
  exact onScreen

/-- One letter at the largest column. -/
theorem drawBytes_overflow :
    4 * tiny.width.toNat ≤ tiny.pitch.toNat ∧
      tiny.drawBytes 0xFFFFFFFF 0 [0x4D] 0xFFFFFF blank = .panic :=
  ⟨by decide, rfl⟩

end Text

end Framebuffer

end PersonaOS.Drivers
