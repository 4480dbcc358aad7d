import TexelFlow.Proofs.Shader.Loop
import TexelFlow.Proofs.Shader.Pairwise
import TexelFlow.Proofs.Texture.Layout
import TexelFlow.Proofs.Texture.Pack

/-!
# What shaders load from textures

A texture is what a layout packs. Here the load functions of a shader meet it: where numbers fit, the
group of channels that is loaded at a position has the packed words of the group, and so the elements of
its channels and zeros behind the last one. What a device answers outside of a texture is left open.

## Main statements

* `Bound.meaningOf_load` — a load function fetches one texel, wherever it is asked.
* `Bound.reads_of_split` — the functions that a shader declares with a texture load from it.
* `loadable_of_compute` — the layouts whose textures are loaded right.
* `Stored.loaded` — what is loaded from a packed tensor are its elements and zeros.

## §1 — textures
## §2 — groups of channels
## §3 — the functions of a shader
## §4 — packed tensors
-/

namespace TexelFlow.Wgsl

/-! ## §1 — textures -/

/-- A texture: its layout and the words of its texels. -/
structure Texture where
  /-- Its layout. -/
  layout : Layout
  /-- The words, texel by texel. -/
  words : Array Binary32

/-- What a device answers for a texel that a texture does not have, by slot and coordinates. -/
abbrev Outside := Nat → Int32 → Int32 → Int32 → Nat → Binary32

/-- The lanes of a texel, if the texture has it. -/
def Texture.fetch (t : Texture) (outside : Outside) (slot : Nat) (x y layer : Int32) : Nat → Binary32 :=
  if (0 ≤ x.toInt ∧ x.toInt < t.layout.width) ∧ (0 ≤ y.toInt ∧ y.toInt < t.layout.height) ∧
      (0 ≤ layer.toInt ∧ layer.toInt < t.layout.layers) then
    fun k => t.words.getD
      (((layer.toInt.toNat * t.layout.height + y.toInt.toNat) * t.layout.width + x.toInt.toNat) * 4 + k)
      .zero
  else outside slot x y layer

/-- What loading from textures gives. They are bound to slots from one on, and have one level of detail. -/
def textureLoad (textures : List Texture) (outside : Outside) : Meaning
  | [.scalar (.texture slot), .vector [.signed x, .signed y], .scalar (.signed layer), _] =>
    textures[slot - 1]?.map fun t => .lanes (t.fetch outside slot x y layer)
  | _ => none

/-- The function that loads from textures. -/
def sampling (textures : List Texture) (outside : Outside) : Functions := fun f =>
  if f = "textureLoad" then some (textureLoad textures outside) else none

/-! ## §2 — groups of channels -/

theorem Env.find?_append {name : String} {inner : Env} (outer : Env)
    (h : name ∉ inner.map Prod.fst) : Env.find? name (inner ++ outer) = outer.find? name := by
  induction inner with
  | nil => rfl
  | cons entry inner ih =>
    rw [List.map_cons, List.mem_cons, not_or] at h
    rw [List.cons_append, find?, if_neg (Ne.symm h.1)]
    exact ih h.2

/-- The names that the function of a role takes from outside. -/
def roleNames (role : String) : List String :=
  (role ++ "_tex") :: ["_TEX_W", "_TEX_H", "_LPS"].map (role.map Char.toUpper ++ ·)

/-- The names it has for its own values. -/
def ownNames : List String := ["layer", "local", "per_layer", "s", "g"]

/-- A texture is bound to a slot for a role, and the constants of its layout are known. -/
structure Bound (fns : Functions) (globals : Env) (outside : Outside) (role : String) (slot : Nat)
    (t : Texture) : Prop where
  /-- The texture is at the slot. -/
  fetch : ∀ x y layer level, fns.call "textureLoad" [.scalar (.texture slot), .vector [.signed x, .signed y],
    .scalar (.signed layer), level] = some (.lanes (t.fetch outside slot x y layer))
  /-- The slot has the name of the role. -/
  texture : globals.find? (role ++ "_tex") = some (.scalar (.texture slot))
  /-- So have width, -/
  width : globals.find? (role.map Char.toUpper ++ "_TEX_W") = some (.ofNat t.layout.width)
  /-- height, -/
  height : globals.find? (role.map Char.toUpper ++ "_TEX_H") = some (.ofNat t.layout.height)
  /-- and the layers of a slice. -/
  perSlice : globals.find? (role.map Char.toUpper ++ "_LPS") = some (.ofNat t.layout.layersPerSlice)
  /-- None of these names is one of the function's own. -/
  foreign : ∀ name ∈ roleNames role, name ∉ ownNames

/-- The body of the function that loads a group. -/
def groupLoadBody (role : String) : List Stmt :=
  let width := roleConstant role "_TEX_W"
  [.bind "per_layer" (width * roleConstant role "_TEX_H"),
   .bind "local" (v "s" % v "per_layer"),
   .bind "layer" (paren (v "s" / v "per_layer") * roleConstant role "_LPS" + v "g"),
   .give (.call "textureLoad"
     [v (role ++ "_tex"),
      .make (.vec 2 .i32) [cast .i32 (v "local" % width), cast .i32 (v "local" / width)],
      cast .i32 (v "layer"), .signed 0])]

section Load

variable {fns : Functions} {globals : Env} {outside : Outside} {role : String} {slot : Nat} {t : Texture}
  {s g : Nat}

/-- A name from outside is found behind the function's own. -/
theorem Bound.find?_eq (h : Bound fns globals outside role slot t) {name : String}
    (hname : name ∈ roleNames role) {inner : Env} (hinner : inner.map Prod.fst ⊆ ownNames) :
    Env.find? name (inner ++ globals) = globals.find? name :=
  Env.find?_append globals fun hmem => h.foreign name hname (hinner hmem)

/-- The quotient of words, as shaders have it. -/
def wordDiv (m n : UInt32) : UInt32 := if n = 0 then m else m / n

/-- The remainder of words. -/
def wordRem (m n : UInt32) : UInt32 := if n = 0 then 0 else m % n

/-- Column, row and layer of the texel of a group at a position, in the arithmetic of words. -/
def texelOf (l : Layout) (s g : Nat) : Int32 × Int32 × Int32 :=
  let width := UInt32.ofNat l.width
  let perLayer := width * UInt32.ofNat l.height
  let place := wordRem (.ofNat s) perLayer
  ((wordRem place width).toInt32, (wordDiv place width).toInt32,
    (wordDiv (.ofNat s) perLayer * .ofNat l.layersPerSlice + .ofNat g).toInt32)

/-- What a load function gives for a group at a position. -/
def Texture.loaded (t : Texture) (outside : Outside) (slot s g : Nat) : Nat → Binary32 :=
  t.fetch outside slot (texelOf t.layout s g).1 (texelOf t.layout s g).2.1 (texelOf t.layout s g).2.2

/-- **A load function** fetches one texel. -/
theorem Bound.meaningOf_load (h : Bound fns globals outside role slot t) :
    meaningOf fns globals groupParams (groupLoadBody role) [.ofNat s, .ofNat g] =
      some (.lanes (t.loaded outside slot s g)) := by
  unfold Texture.loaded texelOf
  dsimp only
  -- the values of the three names
  generalize hper : UInt32.ofNat t.layout.width * UInt32.ofNat t.layout.height = per
  generalize hplace : wordRem (.ofNat s) per = place
  generalize hlayer : wordDiv (.ofNat s) per * .ofNat t.layout.layersPerSlice + .ofNat g = layer
  have hfirst : (Stmt.bind "per_layer" (roleConstant role "_TEX_W" * roleConstant role "_TEX_H")).exec
      fns ([("s", .ofNat s), ("g", .ofNat g)] ++ globals) =
      some ([("per_layer", .scalar (.unsigned per)), ("s", .ofNat s), ("g", .ofNat g)] ++ globals,
        .next) := by
    have hinner : List.map Prod.fst [("s", Value.ofNat s), ("g", Value.ofNat g)] ⊆ ownNames := by
      simp [ownNames]
    unfold roleConstant
    rw [Stmt.exec, eval_mul, eval_binary, eval_v, eval_v, h.find?_eq (by simp [roleNames]) hinner,
      h.find?_eq (by simp [roleNames]) hinner, h.width, h.height, ← hper]
    rfl
  have hsecond : (Stmt.bind "local" (v "s" % v "per_layer")).exec fns
      ([("per_layer", .scalar (.unsigned per)), ("s", .ofNat s), ("g", .ofNat g)] ++ globals) =
      some ([("local", .scalar (.unsigned place)), ("per_layer", .scalar (.unsigned per)),
        ("s", .ofNat s), ("g", .ofNat g)] ++ globals, .next) := by
    rw [← hplace]
    rfl
  have hthird : (Stmt.bind "layer" (paren (v "s" / v "per_layer") * roleConstant role "_LPS" + v "g")).exec
      fns ([("local", .scalar (.unsigned place)), ("per_layer", .scalar (.unsigned per)),
        ("s", .ofNat s), ("g", .ofNat g)] ++ globals) =
      some ([("layer", .scalar (.unsigned layer)), ("local", .scalar (.unsigned place)),
        ("per_layer", .scalar (.unsigned per)), ("s", .ofNat s), ("g", .ofNat g)] ++ globals, .next) := by
    have hinner : List.map Prod.fst [("local", Value.scalar (.unsigned place)),
        ("per_layer", .scalar (.unsigned per)), ("s", .ofNat s), ("g", .ofNat g)] ⊆ ownNames := by
      simp [ownNames]
    unfold roleConstant
    rw [Stmt.exec, eval_add, eval_binary, eval_mul, eval_binary, eval_paren, eval_v, eval_v,
      h.find?_eq (by simp [roleNames]) hinner, h.perSlice, ← hlayer]
    rfl
  have hgive : (Stmt.give (.call "textureLoad" [v (role ++ "_tex"),
      .make (.vec 2 .i32) [cast .i32 (v "local" % roleConstant role "_TEX_W"),
        cast .i32 (v "local" / roleConstant role "_TEX_W")],
      cast .i32 (v "layer"), .signed 0])).exec fns
      ([("layer", .scalar (.unsigned layer)), ("local", .scalar (.unsigned place)),
        ("per_layer", .scalar (.unsigned per)), ("s", .ofNat s), ("g", .ofNat g)] ++ globals) =
      some ([("layer", .scalar (.unsigned layer)), ("local", .scalar (.unsigned place)),
        ("per_layer", .scalar (.unsigned per)), ("s", .ofNat s), ("g", .ofNat g)] ++ globals,
        .done (.lanes (t.fetch outside slot (wordRem place (.ofNat t.layout.width)).toInt32
          (wordDiv place (.ofNat t.layout.width)).toInt32 layer.toInt32))) := by
    have hinner : List.map Prod.fst [("layer", Value.scalar (.unsigned layer)),
        ("local", .scalar (.unsigned place)), ("per_layer", .scalar (.unsigned per)), ("s", .ofNat s),
        ("g", .ofNat g)] ⊆ ownNames := by
      simp [ownNames]
    have hwidth := h.find?_eq (show role.map Char.toUpper ++ "_TEX_W" ∈ roleNames role by
      simp [roleNames]) hinner
    have htexture := h.find?_eq (show role ++ "_tex" ∈ roleNames role by simp [roleNames]) hinner
    rw [h.width] at hwidth
    rw [h.texture] at htexture
    have hcall := h.fetch (wordRem place (.ofNat t.layout.width)).toInt32
      (wordDiv place (.ofNat t.layout.width)).toInt32 layer.toInt32 (.scalar (.signed (.ofInt 0)))
    have hcolumn : (cast .i32 (v "local" % v (role.map Char.toUpper ++ "_TEX_W"))).eval fns
        ([("layer", .scalar (.unsigned layer)), ("local", .scalar (.unsigned place)),
        ("per_layer", .scalar (.unsigned per)), ("s", .ofNat s), ("g", .ofNat g)] ++ globals) =
        some (.scalar (.signed (wordRem place (.ofNat t.layout.width)).toInt32)) := by
      rw [eval_cast, eval_mod, eval_binary, eval_v, eval_v, hwidth]
      rfl
    have hrow : (cast .i32 (v "local" / v (role.map Char.toUpper ++ "_TEX_W"))).eval fns
        ([("layer", .scalar (.unsigned layer)), ("local", .scalar (.unsigned place)),
        ("per_layer", .scalar (.unsigned per)), ("s", .ofNat s), ("g", .ofNat g)] ++ globals) =
        some (.scalar (.signed (wordDiv place (.ofNat t.layout.width)).toInt32)) := by
      rw [eval_cast, eval_div, eval_binary, eval_v, eval_v, hwidth]
      rfl
    unfold roleConstant
    rw [Stmt.exec, eval_call]
    simp only [evalAll_cons, evalAll_nil, eval_make, eval_v, eval_signed, hcolumn, hrow, htexture,
      Option.bind_some, Option.map_some]
    rw [eval_cast, eval_v]
    show (fns.call "textureLoad" [_, .vector [.signed _, .signed _], .scalar (.signed layer.toInt32),
      .scalar (.signed (.ofInt 0))]).map _ = _
    rw [hcall]
    rfl
  exact meaningOf_of_done rfl <| (execAll_cons_of_next fns hfirst _).trans <|
    (execAll_cons_of_next fns hsecond _).trans <| (execAll_cons_of_next fns hthird _).trans
      (execAll_cons_of_done fns hgive _)

end Load

/-! ## §3 — the functions of a shader -/

/-- The functions of a role load from a texture: groups, and single channels. -/
structure Reads (fns : Functions) (outside : Outside) (role : String) (slot : Nat) (t : Texture) :
    Prop where
  /-- A group at a position. -/
  group : ∀ s g, fns.call ("load_" ++ role) [.ofNat s, .ofNat g] = some (.lanes (t.loaded outside slot s g))
  /-- A channel at a position. -/
  channel : ∀ s, ∀ c < 2 ^ 32, fns.call ("load_" ++ role ++ "_channel") [.ofNat s, .ofNat c] =
    some (.scalar (.real (t.loaded outside slot s (c / 4) (c % 4))))

section Declared

variable {fns : Functions} {globals : Env} {outside : Outside} {role : String} {slot : Nat} {t : Texture}

theorem Bound.foldl_define (h : Bound fns globals outside role slot t) (decls : List Decl) :
    Bound (decls.foldl (define globals) fns) globals outside role slot t :=
  { h with fetch := fun x y layer level => call_foldl_define (h.fetch x y layer level) decls }

theorem Reads.foldl_define (h : Reads fns outside role slot t) (decls : List Decl) :
    Reads (decls.foldl (define globals) fns) outside role slot t where
  group s g := call_foldl_define (h.group s g) decls
  channel s c hc := call_foldl_define (h.channel s c hc) decls

/-- **The functions of a role**, declared with its texture, load from it. -/
theorem Bound.reads_of_split (h : Bound fns globals outside role slot t) {before after : List Decl}
    (hgroup : fns ("load_" ++ role) = none) (hchannel : fns ("load_" ++ role ++ "_channel") = none)
    (hbefore : "load_" ++ role ∉ before.filterMap Decl.functionName?)
    (hbefore' : "load_" ++ role ++ "_channel" ∉
      before.filterMap Decl.functionName? ++ ["load_" ++ role]) :
    Reads ((before ++ (textureInput slot role t.layout ++ after)).foldl (define globals) fns) outside role
      slot t := by
  -- what is in front of the one function, and in front of the other
  obtain ⟨front, hfront⟩ : ∃ front, front = before ++ ([.blank, .texture slot (role ++ "_tex")] ++
      layoutConstants (role.map Char.toUpper) t.layout ++ [.blank]) := ⟨_, rfl⟩
  have hnames : front.filterMap Decl.functionName? = before.filterMap Decl.functionName? := by
    rw [hfront, List.filterMap_append]
    exact List.append_nil _
  have hsplit : before ++ (textureInput slot role t.layout ++ after) =
      (front ++ [loadGroup role, .blank]) ++ loadChannel role :: after := by
    rw [hfront]
    simp [textureInput]
  have hload : ∀ rest s g, ((front ++ loadGroup role :: rest).foldl (define globals) fns).call
      ("load_" ++ role) [.ofNat s, .ofNat g] = some (.lanes (t.loaded outside slot s g)) := fun rest s g =>
    Option.bind_eq_some_iff.mpr ⟨_, functions_of_split hgroup (hnames ▸ hbefore) none groupParams
      (result vec4) (groupLoadBody role), (h.foldl_define front).meaningOf_load⟩
  have hcut : ∀ s g, ((front ++ [loadGroup role, .blank]).foldl (define globals) fns).call
      ("load_" ++ role) [.ofNat s, .ofNat g] = some (.lanes (t.loaded outside slot s g)) := hload [.blank]
  rw [hsplit]
  constructor
  case group =>
    intro s g
    rw [List.foldl_append]
    exact call_foldl_define (hcut s g) _
  case channel =>
    intro s c hc
    refine Option.bind_eq_some_iff.mpr ⟨_, functions_of_split hchannel ?_ none elementParams
      (result .f32) (channelBody role), meaningOf_channelBody globals hc (hcut s (c / 4))⟩
    rw [List.filterMap_append, hnames]
    exact hbefore'

end Declared

/-! ## §4 — packed tensors -/

/-- A layout whose coordinates fit signed words. -/
structure Loadable (l : Layout) : Prop where
  /-- A layer has texels. -/
  area_pos : 0 < l.width * l.height
  /-- They can be counted. -/
  area_lt : l.width * l.height < 2 ^ 32
  /-- Columns fit. -/
  width_le : l.width ≤ 2 ^ 31
  /-- Rows fit. -/
  height_le : l.height ≤ 2 ^ 31
  /-- The layers are those of all slices. -/
  layers : l.layers = l.slices * l.layersPerSlice
  /-- They fit. -/
  layers_le : l.slices * l.layersPerSlice ≤ 2 ^ 31

theorem wordDiv_ofNat {m n : Nat} (hm : m < 2 ^ 32) (hn : 0 < n) (hn' : n < 2 ^ 32) :
    wordDiv (.ofNat m) (.ofNat n) = .ofNat (m / n) := by
  unfold wordDiv
  rw [if_neg (Value.ofNat_ne_zero hn hn'), UInt32.ofNat_div hm hn']

theorem wordRem_ofNat {m n : Nat} (hm : m < 2 ^ 32) (hn : 0 < n) (hn' : n < 2 ^ 32) :
    wordRem (.ofNat m) (.ofNat n) = .ofNat (m % n) := by
  unfold wordRem
  rw [if_neg (Value.ofNat_ne_zero hn hn'), UInt32.ofNat_mod hm hn']

theorem toInt_ofNat {n : Nat} (h : n < 2 ^ 31) : (Int32.ofNat n).toInt = n := by
  rw [← Int32.ofInt_eq_ofNat, Int32.toInt_ofInt_of_le (by omega) (by omega)]

section Packed

variable {l : Layout} {s g : Nat}

/-- Where numbers fit, a group at a position is in the layer of its slice and group. -/
theorem Loadable.texelOf_eq (h : Loadable l) (hs : s < 2 ^ 32) :
    texelOf l s g = (.ofNat (s % (l.width * l.height) % l.width),
      .ofNat (s % (l.width * l.height) / l.width),
      .ofNat (s / (l.width * l.height) * l.layersPerSlice + g)) := by
  have hwidth : 0 < l.width := Nat.pos_of_mul_pos_right h.area_pos
  have hwidth' : l.width < 2 ^ 32 := Nat.lt_of_le_of_lt h.width_le (by decide)
  have hplace : s % (l.width * l.height) < 2 ^ 32 := Nat.lt_of_le_of_lt (Nat.mod_le _ _) hs
  unfold texelOf
  dsimp only
  rw [← UInt32.ofNat_mul, wordRem_ofNat hs h.area_pos h.area_lt, wordDiv_ofNat hs h.area_pos h.area_lt,
    wordRem_ofNat hplace hwidth hwidth', wordDiv_ofNat hplace hwidth hwidth', ← UInt32.ofNat_mul,
    ← UInt32.ofNat_add, UInt32.toInt32_ofNat', UInt32.toInt32_ofNat', UInt32.toInt32_ofNat']

/-- A texel that the texture has. -/
theorem Texture.fetch_ofNat (t : Texture) (h : Loadable t.layout) (outside : Outside) (slot : Nat)
    {x y layer : Nat} (hx : x < t.layout.width) (hy : y < t.layout.height)
    (hlayer : layer < t.layout.slices * t.layout.layersPerSlice) :
    t.fetch outside slot (.ofNat x) (.ofNat y) (.ofNat layer) = fun k => t.words.getD
      ((layer * (t.layout.width * t.layout.height) + (y * t.layout.width + x)) * 4 + k) .zero := by
  have hcolumns := h.width_le
  have hrows := h.height_le
  have hlayers := h.layers_le
  have hindex : (layer * t.layout.height + y) * t.layout.width + x =
      layer * (t.layout.width * t.layout.height) + (y * t.layout.width + x) := by ring
  unfold fetch
  rw [toInt_ofNat (by omega), toInt_ofNat (by omega), toInt_ofNat (by omega), h.layers, if_pos (by omega),
    Int.toNat_natCast, Int.toNat_natCast, Int.toNat_natCast, hindex]

/-- The words of a group at a position. -/
def Texture.group (t : Texture) (s g k : Nat) : Binary32 :=
  t.words.getD (t.layout.word (s / (t.layout.width * t.layout.height)) g
    (s % (t.layout.width * t.layout.height)) k) .zero

/-- **Where numbers fit**, a load function gives the words of the group at the position. -/
theorem Texture.loaded_eq_group (t : Texture) (hl : Loadable t.layout) (outside : Outside) (slot : Nat)
    (hs : s < 2 ^ 32) (hslice : s / (t.layout.width * t.layout.height) < t.layout.slices)
    (hg : g < t.layout.layersPerSlice) : t.loaded outside slot s g = t.group s g := by
  have hwidth : 0 < t.layout.width := Nat.pos_of_mul_pos_right hl.area_pos
  have hplace : s % (t.layout.width * t.layout.height) < t.layout.height * t.layout.width := by
    rw [Nat.mul_comm t.layout.height]
    exact Nat.mod_lt _ hl.area_pos
  unfold loaded
  rw [hl.texelOf_eq hs, t.fetch_ofNat hl outside slot (Nat.mod_lt _ hwidth)
    ((Nat.div_lt_iff_lt_mul hwidth).mpr hplace) (Size.mul_add_lt hslice hg), Size.div_mul_add_mod]
  rfl

/-- **Layouts whose coordinates fit** have textures that are loaded right. -/
theorem loadable_of_compute {name : String} {d : Descriptor} {limits : Layout.Limits}
    {options : Layout.Options} (h : Layout.compute name d limits options = .ok l)
    (hspatial : l.spatial ≤ 2 ^ 31) (hlayers : l.slices * l.layersPerSlice ≤ 2 ^ 31) :
    l.Exact ∧ Loadable l := by
  have hexact := (Layout.compute_eq_ok h).exact
  have hextents := Layout.extents_le_of_compute h
  have harea := Layout.area_lt_of_compute h
  refine ⟨hexact, ?_⟩
  constructor
  case area_pos => exact hexact.area_pos
  case area_lt => omega
  case width_le => exact hextents.1.trans hspatial
  case height_le => exact hextents.2.trans hspatial
  case layers => exact hexact.layers
  case layers_le => exact hlayers

/-- The slice of a position. -/
theorem slice_lt (h : l.Exact) (hs : s < l.spatial) : s / (l.width * l.height) < l.slices := by
  rw [h.lt_slices]
  exact Nat.lt_of_le_of_lt (Nat.div_mul_le_self _ _) hs

/-- The elements of a tensor by position and channel, with zeros behind the last channel. -/
def padded (l : Layout) (values : List Binary32) (s c : Nat) : Binary32 :=
  if c < l.channels then l.element values s c else .zero

/-- **The words of a packed tensor** are its elements, and zeros behind the last channel. -/
theorem group_of_pack (h : l.Exact) {values : List Binary32} {words : Array Binary32}
    (hpack : l.pack values = .ok words) {k : Nat} (hs : s < l.spatial) (hg : g < l.layersPerSlice)
    (hk : k < 4) : (Texture.mk l words).group s g k = padded l values s (g * 4 + k) := by
  have hplace : s % (l.width * l.height) < l.width * l.height := Nat.mod_lt _ h.area_pos
  have hword := h.word_lt (slice_lt h hs) hg hplace hk
  unfold Texture.group padded
  rw [Array.getD_eq_getD_getElem?, h.getElem?_of_pack hpack hword, Option.getD_some]
  unfold Layout.content
  rw [Layout.positionAt_word hg hplace hk, Layout.channelAt_word hg hplace hk, Size.div_mul_add_mod]
  by_cases hc : g * 4 + k < l.channels
  · rw [if_pos ⟨hs, hc⟩, if_pos hc]
    rfl
  · rw [if_neg fun hand => hc hand.2, if_neg hc]

/-- A tensor is packed into a texture whose coordinates fit. -/
structure Stored (l : Layout) (values : List Binary32) (words : Array Binary32) : Prop where
  /-- Elements have places. -/
  exact : l.Exact
  /-- Its coordinates fit. -/
  loadable : Loadable l
  /-- Positions fit. -/
  spatial_le : l.spatial ≤ 2 ^ 31
  /-- The words are those of the tensor. -/
  packed : l.pack values = .ok words

section Stored

variable {values : List Binary32} {words : Array Binary32} (h : Stored l values words)
include h

/-- **A packed tensor is loaded** as it is, with zeros behind its last channel. -/
theorem Stored.loaded (outside : Outside) (slot : Nat) {k : Nat} (hs : s < l.spatial)
    (hg : g < l.channelGroups) (hk : k < 4) :
    (Texture.mk l words).loaded outside slot s g k = padded l values s (g * 4 + k) := by
  have hgroup : g < l.layersPerSlice := Nat.lt_of_lt_of_le hg h.exact.groups_le
  have hword : s < 2 ^ 32 := hs.trans_le (h.spatial_le.trans (by decide))
  rw [Texture.loaded_eq_group _ h.loadable outside slot hword (slice_lt h.exact hs) hgroup]
  exact group_of_pack h.exact h.packed hs hgroup hk

variable {fns : Functions} {outside : Outside} {role : String} {slot : Nat}
  (hreads : Reads fns outside role slot ⟨l, words⟩)
include hreads

theorem Stored.call_group (hs : s < l.spatial) (hg : g < l.channelGroups) :
    fns.call ("load_" ++ role) [.ofNat s, .ofNat g] =
      some (.lanes fun k => padded l values s (g * 4 + k)) := by
  rw [hreads.group, Value.lanes_congr fun k hk => h.loaded outside slot hs hg hk]

theorem Stored.call_channel (hs : s < l.spatial) {c : Nat} (hc : c < l.channels) (hc' : c < 2 ^ 32) :
    fns.call ("load_" ++ role ++ "_channel") [.ofNat s, .ofNat c] =
      some (.scalar (.real (padded l values s c))) := by
  have hgroup : c / 4 < l.channelGroups :=
    Nat.div_lt_of_lt_mul (Nat.mul_comm 4 _ ▸ hc.trans_le h.exact.channels_le)
  rw [hreads.channel s c hc', h.loaded outside slot hs hgroup (Nat.mod_lt c (by decide)),
    Size.div_mul_add_mod]

end Stored

end Packed

end TexelFlow.Wgsl
