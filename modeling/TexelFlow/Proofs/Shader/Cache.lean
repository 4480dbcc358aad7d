import Mathlib.Data.Finset.Card
import Mathlib.Data.Finset.Dedup
import Mathlib.Data.Finset.Insert
import Mathlib.Data.List.Nodup
import TexelFlow.Proofs.Shader.Compiled

/-!
# Caches of shaders

A cache is only ever added to in front, so the number of a shader, counted from the oldest, stays. What is
kept under a key was built for the key and accepted, and neither depends on the node it was wanted for: a
cache answers a request as the empty cache does, whatever it was asked before, except for the number of the
shader. Refused shaders are not kept, so the shaders of a cache are those of the different keys that were
answered.

## Main statements

* `ShaderCache.fetch_grows`, `ShaderCache.fetch_eq_ok` — what fetching keeps and what it gives.
* `ProgramRequest.compile_cases` — a request fails as on the empty cache and leaves the cache, or is
  answered as on the empty cache and its key is kept.
* `ShaderCache.transparent` — a sequence of requests is answered as if there were no cache.

## §1 — growing caches
## §2 — one request
## §3 — sequences of requests
-/

namespace TexelFlow

/-! ## §1 — growing caches -/

/-- A cache that compiling programs leaves behind, whichever they were and however it went. -/
inductive ShaderCache.Grown [Wgsl.Validator] : ShaderCache → Prop
  | empty : Grown .empty
  | compile {cache : ShaderCache} (h : Grown cache) (n : Node) (inputs : List TextureInput)
      (size : Option Tensor) (output : Layout) : Grown (Program.compile cache n inputs size output).2

/-- The shader of a key. -/
def ShaderKey.Has (key : ShaderKey) (shader : Wgsl.Shader) : Prop :=
  Wgsl.shader key.op key.pass key.inputs key.output = .ok shader

theorem ShaderKey.has_of_build [Wgsl.Validator] {key : ShaderKey} {node : String} {shader : Wgsl.Shader}
    (h : key.build node = .ok shader) : key.Has shader := by
  unfold build at h
  obtain ⟨made, hmade, hfits⟩ := Outcome.bind_eq_ok_iff.mp h
  split at hfits
  · rwa [Outcome.pure_eq_ok_iff.mp hfits] at hmade
  · cases hfits

namespace ShaderCache

variable {c c' : ShaderCache} {key : ShaderKey} {shader : Wgsl.Shader} {i : Nat}

/-- Under each key stands its shader. -/
def Sound (c : ShaderCache) : Prop := ∀ entry ∈ c.entries, entry.1.Has entry.2

/-- The shader of a number, counted from the oldest. -/
def shader? (c : ShaderCache) (i : Nat) : Option Wgsl.Shader := c.entries.reverse[i]?.map (·.2)

theorem lookup_eq_some {entries : List (ShaderKey × Wgsl.Shader)}
    (h : lookup key entries = some (i, shader)) :
    (key, shader) ∈ entries ∧ entries.reverse[i]? = some (key, shader) := by
  induction entries with
  | nil => cases h
  | cons entry older ih =>
    rw [lookup] at h
    rw [List.reverse_cons]
    split at h
    · rename_i hkey
      obtain ⟨rfl, rfl⟩ := Prod.mk.inj (Option.some.inj h)
      subst hkey
      refine ⟨List.mem_cons_self, ?_⟩
      rw [List.getElem?_append_right (by rw [List.length_reverse]), List.length_reverse, Nat.sub_self]
      rfl
    · obtain ⟨hmem, hat⟩ := ih h
      refine ⟨List.mem_cons_of_mem _ hmem, ?_⟩
      have hlt : i < older.reverse.length := (List.getElem?_eq_some_iff.mp hat).1
      rw [List.getElem?_append_left hlt, hat]

/-- What stands under a number stays when a cache grows. -/
theorem entry_of_suffix {entry : ShaderKey × Wgsl.Shader} (h : c.entries <:+ c'.entries)
    (hi : c.entries.reverse[i]? = some entry) : c'.entries.reverse[i]? = some entry := by
  obtain ⟨newer, hentries⟩ := h
  have hlt : i < c.entries.reverse.length := (List.getElem?_eq_some_iff.mp hi).1
  rw [← hentries, List.reverse_append, List.getElem?_append_left hlt, hi]

/-- Numbers stay when a cache grows. -/
theorem shader?_of_suffix (h : c.entries <:+ c'.entries) (hi : c.shader? i = some shader) :
    c'.shader? i = some shader := by
  unfold shader? at hi ⊢
  obtain ⟨entry, hentry, hshader⟩ := Option.map_eq_some_iff.mp hi
  rw [entry_of_suffix h hentry, Option.map_some, hshader]

/-- **Fetching** keeps what is there, and keeps it sound. -/
theorem fetch_grows [Wgsl.Validator] (c : ShaderCache) (key : ShaderKey) (node : String) :
    c.entries <:+ (c.fetch key node).2.entries ∧ (c.Sound → (c.fetch key node).2.Sound) := by
  unfold fetch
  split
  · exact ⟨List.suffix_rfl, id⟩
  · split
    · rename_i shader hbuild
      refine ⟨List.suffix_cons _ _, fun hc entry hentry => ?_⟩
      rcases List.mem_cons.mp hentry with rfl | hentry
      · exact ShaderKey.has_of_build hbuild
      · exact hc entry hentry
    · exact ⟨List.suffix_rfl, id⟩

/-- What is fetched is the shader of the key, under its number. -/
theorem fetch_eq_ok [Wgsl.Validator] {node : String} (hc : c.Sound) (h : c.fetch key node = (.ok (i, shader), c')) :
    key.Has shader ∧ c'.shader? i = some shader := by
  unfold fetch at h
  split at h
  · rename_i found hfound
    obtain ⟨hfirst, rfl⟩ := Prod.mk.inj h
    obtain rfl := Except.ok.inj hfirst
    obtain ⟨hmem, hat⟩ := lookup_eq_some hfound
    refine ⟨hc _ hmem, ?_⟩
    rw [shader?, hat]
    rfl
  · split at h
    · rename_i made hbuild
      obtain ⟨hfirst, rfl⟩ := Prod.mk.inj h
      obtain ⟨rfl, rfl⟩ := Prod.mk.inj (Except.ok.inj hfirst)
      refine ⟨ShaderKey.has_of_build hbuild, ?_⟩
      rw [shader?, List.reverse_cons, List.getElem?_append_right (by rw [List.length_reverse]; rfl),
        List.length_reverse, size, Nat.sub_self]
      rfl
    · cases (Prod.mk.inj h).1

end ShaderCache

namespace Program

variable [Wgsl.Validator]

/-- Compiling a program leaves the cache alone or fetches from it. -/
theorem compile_cache (cache : ShaderCache) (n : Node) (inputs : List TextureInput) (size : Option Tensor)
    (output : Layout) : (compile cache n inputs size output).2 = cache ∨
      ∃ key, (compile cache n inputs size output).2 = (cache.fetch key n.name).2 := by
  unfold compile
  split
  · exact .inl rfl
  · rename_i key _
    refine .inr ⟨key, ?_⟩
    split
    · rename_i hfetch
      rw [hfetch]
    · rename_i hfetch
      rw [hfetch]

/-- A shader that is not yet kept and is accepted is kept under the next number. -/
theorem compile_of_accepted {cache : ShaderCache} {n : Node} {inputs : List TextureInput}
    {size : Option Tensor} {output : Layout} {key : ShaderKey} {shader : Wgsl.Shader}
    (hkey : Program.key n inputs size output = .ok key)
    (hnew : cache.find? key = none) (hshader : key.Has shader)
    (haccepted : Wgsl.Validator.accepts shader) :
    compile cache n inputs size output =
      (.ok (assemble n inputs key (cache.size, shader)), ⟨(key, shader) :: cache.entries⟩) := by
  have hbuild : key.build n.name = .ok shader := by
    unfold ShaderKey.build
    rw [Outcome.bind_of_eq_ok hshader, if_pos haccepted]
    rfl
  unfold compile
  rw [hkey]
  dsimp only
  unfold ShaderCache.fetch
  rw [hnew, hbuild]

/-- A cache grows when a program is compiled. -/
theorem compile_grows (cache : ShaderCache) (n : Node) (inputs : List TextureInput) (size : Option Tensor)
    (output : Layout) : cache.entries <:+ (compile cache n inputs size output).2.entries ∧
      (cache.Sound → (compile cache n inputs size output).2.Sound) := by
  rcases compile_cache cache n inputs size output with h | ⟨key, h⟩
  · rw [h]
    exact ⟨List.suffix_rfl, id⟩
  · rw [h]
    exact cache.fetch_grows key n.name

end Program

theorem ShaderCache.Grown.sound [Wgsl.Validator] {c : ShaderCache} (h : c.Grown) : c.Sound := by
  induction h with
  | empty =>
    intro entry hentry
    cases hentry
  | compile _ n inputs size output ih => exact (Program.compile_grows _ n inputs size output).2 ih

/-! ## §2 — one request -/

namespace ShaderCache

variable {c : ShaderCache} {key : ShaderKey}

/-- The keys of a cache. -/
def keys (c : ShaderCache) : List ShaderKey := c.entries.map Prod.fst

/-- **What a cache keeps to**: it holds every key once, with a shader that any node would be given for it. -/
structure Kept [Wgsl.Validator] (c : ShaderCache) : Prop where
  /-- Every shader is accepted for its key. -/
  accepted : ∀ entry ∈ c.entries, ∀ node, entry.1.build node = .ok entry.2
  /-- No key is held twice. -/
  nodup : c.keys.Nodup

theorem empty_kept [Wgsl.Validator] : Kept .empty := ⟨fun _ h => absurd h List.not_mem_nil, List.nodup_nil⟩

theorem not_mem_of_lookup_eq_none {entries : List (ShaderKey × Wgsl.Shader)}
    (h : lookup key entries = none) : key ∉ entries.map Prod.fst := by
  induction entries with
  | nil => exact List.not_mem_nil
  | cons entry older ih =>
    rw [lookup] at h
    split at h
    · cases h
    · rename_i hkey
      exact List.not_mem_cons_of_ne_of_not_mem (fun heq => hkey heq.symm) (ih h)

end ShaderCache

/-- A node is named only where a shader is refused. -/
theorem ShaderKey.build_of_build [Wgsl.Validator] {key : ShaderKey} {node : String} {shader : Wgsl.Shader}
    (h : key.build node = .ok shader) (node' : String) : key.build node' = .ok shader := by
  unfold build at h ⊢
  obtain ⟨made, hmade, hfits⟩ := Outcome.bind_eq_ok_iff.mp h
  split at hfits
  · rename_i haccepted
    rw [Outcome.bind_of_eq_ok hmade, if_pos haccepted]
    exact hfits
  · cases hfits

/-- **Fetching** fails where the shader cannot be built, and then leaves the cache; else it gives the shader
that is built, under the number it has in the cache from now on. -/
theorem ShaderCache.fetch_cases [Wgsl.Validator] (c : ShaderCache) (hc : c.Kept) (key : ShaderKey) (node : String) :
    (∃ e, key.build node = .error e ∧ c.fetch key node = (.error e, c)) ∨
    ∃ i shader c', key.build node = .ok shader ∧ c.fetch key node = (.ok (i, shader), c') ∧ c'.Kept ∧
      c.entries <:+ c'.entries ∧ c'.entries.reverse[i]? = some (key, shader) ∧
      c'.keys.toFinset = insert key c.keys.toFinset := by
  cases hfound : c.find? key with
  | some found =>
    obtain ⟨hmem, hat⟩ := lookup_eq_some hfound
    have hfetch : c.fetch key node = (.ok found, c) := by
      unfold fetch
      rw [hfound]
    have hheld : key ∈ c.keys.toFinset := List.mem_toFinset.mpr (List.mem_map_of_mem hmem)
    exact .inr ⟨found.1, found.2, c, hc.accepted _ hmem node, hfetch, hc, List.suffix_rfl, hat,
      (Finset.insert_eq_of_mem hheld).symm⟩
  | none =>
    have hnew : key ∉ c.keys := not_mem_of_lookup_eq_none hfound
    cases hbuild : key.build node with
    | error e =>
      refine .inl ⟨e, rfl, ?_⟩
      unfold fetch
      rw [hfound, hbuild]
    | ok shader =>
      have hfetch : c.fetch key node = (.ok (c.size, shader), ⟨(key, shader) :: c.entries⟩) := by
        unfold fetch
        rw [hfound, hbuild]
      refine .inr ⟨c.size, shader, _, rfl, hfetch, ⟨?_, List.nodup_cons.mpr ⟨hnew, hc.nodup⟩⟩,
        List.suffix_cons _ _, ?_, List.toFinset_cons⟩
      · intro entry hentry node'
        rcases List.mem_cons.mp hentry with rfl | hentry
        · exact ShaderKey.build_of_build hbuild node'
        · exact hc.accepted entry hentry node'
      · rw [List.reverse_cons, List.getElem?_append_right (by rw [List.length_reverse]; rfl),
          List.length_reverse, size, Nat.sub_self]
        rfl

/-- The empty cache gives the shader that is built, under the first number. -/
theorem ShaderCache.empty_fetch [Wgsl.Validator] (key : ShaderKey) (node : String) :
    (ShaderCache.empty.fetch key node).1 = (key.build node).map fun shader => (0, shader) := by
  unfold fetch
  rw [show ShaderCache.empty.find? key = none from rfl]
  cases key.build node with
  | error e => rfl
  | ok shader => rfl

/-- The program with a number for its shader that says nothing of a cache. -/
def Program.unnumbered (p : Program) : Program := { p with shaderId := 0 }

/-- What a cache is asked for: the program of a node, for the textures it reads, a constant size, and the
layout of what it writes. -/
structure ProgramRequest where
  /-- The node. -/
  node : Node
  /-- The textures it reads. -/
  inputs : List TextureInput
  /-- The constant size of a resize. -/
  size : Option Tensor
  /-- Layout of the output. -/
  output : Layout

namespace ProgramRequest

/-- Compile the program that is asked for. -/
def compile [Wgsl.Validator] (r : ProgramRequest) (c : ShaderCache) : Outcome Program × ShaderCache :=
  Program.compile c r.node r.inputs r.size r.output

/-- What a shader is shared by: the operation, what the program computes, and the layouts of what is read
and written. -/
def keyOf (r : ProgramRequest) (p : Program) : ShaderKey :=
  ⟨r.node.op, p.pass, r.inputs.map (·.layout), r.output⟩

/-- A request with a key fetches its shader. -/
theorem compile_of_key [Wgsl.Validator] {r : ProgramRequest} {key : ShaderKey}
    (hkey : Program.key r.node r.inputs r.size r.output = .ok key) (c : ShaderCache) :
    r.compile c = ((c.fetch key r.node.name).1.map (.assemble r.node r.inputs key),
      (c.fetch key r.node.name).2) := by
  unfold compile Program.compile
  rw [hkey]
  dsimp only
  generalize c.fetch key r.node.name = fetched
  obtain ⟨_ | _, _⟩ := fetched
  · rfl
  · rfl

/-- **A request** fails as on the empty cache, and then leaves the cache; else its program is the one of the
empty cache, under the number of its key from now on. -/
theorem compile_cases [Wgsl.Validator] {c : ShaderCache} (hc : c.Kept) (r : ProgramRequest) :
    (∃ e, r.compile c = (.error e, c) ∧ (r.compile .empty).1 = .error e) ∨
    ∃ p c', r.compile c = (.ok p, c') ∧ (r.compile .empty).1 = .ok p.unnumbered ∧ c'.Kept ∧
      c.entries <:+ c'.entries ∧ c'.entries.reverse[p.shaderId]? = some (r.keyOf p, p.shader) ∧
      c'.keys.toFinset = insert (r.keyOf p) c.keys.toFinset := by
  cases hkey : Program.key r.node r.inputs r.size r.output with
  | error e =>
    have hfails : ∀ c : ShaderCache, r.compile c = (.error e, c) := by
      intro c
      unfold compile Program.compile
      rw [hkey]
    exact .inl ⟨e, hfails c, by rw [hfails]⟩
  | ok key =>
    obtain ⟨pass, -, -, hparts⟩ := Program.key_eq_ok hkey
    have hkeyOf : ∀ found, r.keyOf (.assemble r.node r.inputs key found) = key := by
      intro found
      rw [hparts]
      rfl
    rw [compile_of_key hkey, compile_of_key hkey, ShaderCache.empty_fetch]
    rcases c.fetch_cases hc key r.node.name with
      ⟨e, hbuild, hfetch⟩ | ⟨i, shader, c', hbuild, hfetch, hkept, hsuffix, hat, hkeys⟩
    · rw [hbuild, hfetch]
      exact .inl ⟨e, rfl, rfl⟩
    · rw [hbuild, hfetch]
      exact .inr ⟨.assemble r.node r.inputs key (i, shader), c', rfl, rfl, hkept, hsuffix,
        by rw [hkeyOf]; exact hat, by rw [hkeyOf]; exact hkeys⟩

end ProgramRequest

/-! ## §3 — sequences of requests -/

namespace ShaderCache

variable [Wgsl.Validator]

/-- The cache that requests leave behind, one after the other. -/
def after (c : ShaderCache) (rs : List ProgramRequest) : ShaderCache := rs.foldl (fun c r => (r.compile c).2) c

/-- How requests are answered, one after the other. -/
def answers (c : ShaderCache) : List ProgramRequest → List (Outcome Program)
  | [] => []
  | r :: rest => (r.compile c).1 :: answers (r.compile c).2 rest

/-- The requests with their answers. -/
def answered (c : ShaderCache) (rs : List ProgramRequest) : List (ProgramRequest × Outcome Program) :=
  rs.zip (c.answers rs)

/-- The keys of the requests that succeeded. -/
def succeeded (c : ShaderCache) (rs : List ProgramRequest) : List ShaderKey :=
  (c.answered rs).filterMap fun (r, answer) => answer.toOption.map r.keyOf

/-- **After requests** a cache holds what it held, the keys of those that succeeded beside it, and each of
them under the number of its program. Every request is answered as by the empty cache. -/
theorem after_cases {c : ShaderCache} (hc : c.Kept) (rs : List ProgramRequest) :
    (c.answers rs).map (Except.map Program.unnumbered) = rs.map (fun r => (r.compile .empty).1) ∧
    (c.after rs).Kept ∧ c.entries <:+ (c.after rs).entries ∧
    (∀ r p, (r, .ok p) ∈ c.answered rs →
      (c.after rs).entries.reverse[p.shaderId]? = some (r.keyOf p, p.shader)) ∧
    (c.after rs).keys.toFinset = c.keys.toFinset ∪ (c.succeeded rs).toFinset := by
  induction rs generalizing c with
  | nil =>
    refine ⟨rfl, hc, List.suffix_rfl, fun r p h => absurd h List.not_mem_nil, ?_⟩
    exact (Finset.union_empty _).symm
  | cons r rest ih =>
    rcases r.compile_cases hc with ⟨e, hr, hempty⟩ | ⟨p, c', hr, hempty, hc', hsuffix, hat, hkeys⟩
    · obtain ⟨halike, hkept, hgrown, hnumbers, hheld⟩ := ih hc
      have hafter : c.after (r :: rest) = c.after rest := by
        rw [after, List.foldl_cons, hr]
        rfl
      have hanswers : c.answers (r :: rest) = .error e :: c.answers rest := by rw [answers, hr]
      rw [hafter]
      refine ⟨?_, hkept, hgrown, fun r' p h => ?_, ?_⟩
      · rw [hanswers, List.map_cons, List.map_cons, halike, hempty]
        rfl
      · rw [answered, hanswers, List.zip_cons_cons] at h
        rcases List.mem_cons.mp h with h | h
        · cases h
        · exact hnumbers r' p h
      · rw [hheld, succeeded, succeeded, answered, answered, hanswers]
        rfl
    · obtain ⟨halike, hkept, hgrown, hnumbers, hheld⟩ := ih hc'
      have hafter : c.after (r :: rest) = c'.after rest := by
        rw [after, List.foldl_cons, hr]
        rfl
      have hanswers : c.answers (r :: rest) = .ok p :: c'.answers rest := by rw [answers, hr]
      rw [hafter]
      refine ⟨?_, hkept, hsuffix.trans hgrown, fun r' q h => ?_, ?_⟩
      · rw [hanswers, List.map_cons, List.map_cons, halike, hempty]
        rfl
      · rw [answered, hanswers, List.zip_cons_cons] at h
        rcases List.mem_cons.mp h with h | h
        · obtain ⟨rfl, hanswer⟩ := Prod.mk.inj h
          obtain rfl := Except.ok.inj hanswer
          exact entry_of_suffix hgrown hat
        · exact hnumbers r' q h
      · have hsucceeded : c.succeeded (r :: rest) = r.keyOf p :: c'.succeeded rest := by
          rw [succeeded, answered, hanswers]
          rfl
        rw [hheld, hkeys, hsucceeded, List.toFinset_cons, Finset.insert_union, Finset.union_insert]

/-- What a cache promises to a sequence of requests on it. -/
structure Transparent (rs : List ProgramRequest) : Prop where
  /-- Every request is answered as by the empty cache, whose only shader has the number zero. -/
  alike : (answers .empty rs).map (Except.map Program.unnumbered) = rs.map fun r => (r.compile .empty).1
  /-- Two programs share a shader exactly when they agree in what shaders are shared by. -/
  shared : ∀ r p r' q, (r, .ok p) ∈ answered .empty rs → (r', .ok q) ∈ answered .empty rs →
    (p.shaderId = q.shaderId ↔ r.keyOf p = r'.keyOf q)
  /-- A request that fails behind them leaves the cache. -/
  failed : ∀ (r : ProgramRequest) (e : Error), (r.compile (after .empty rs)).1 = .error e →
    (r.compile (after .empty rs)).2 = after .empty rs
  /-- There are as many shaders as different keys that succeeded. -/
  size : (after .empty rs).size = (succeeded .empty rs).toFinset.card

/-- **A cache is transparent**, whatever sequence of requests it serves, and whatever shaders are accepted. -/
theorem transparent (rs : List ProgramRequest) : Transparent rs := by
  obtain ⟨halike, hkept, -, hnumbers, hheld⟩ := after_cases empty_kept rs
  constructor
  case alike => exact halike
  case shared =>
    intro r p r' q hp hq
    have hpat := hnumbers r p hp
    have hqat := hnumbers r' q hq
    constructor
    · intro hsame
      rw [hsame, hqat] at hpat
      exact (Prod.mk.inj (Option.some.inj hpat)).1.symm
    · intro hkey
      have hkeys : (after .empty rs).keys.reverse[p.shaderId]? =
          (after .empty rs).keys.reverse[q.shaderId]? := by
        rw [keys, ← List.map_reverse, List.getElem?_map, List.getElem?_map, hpat, hqat]
        exact congrArg some hkey
      have hlt : p.shaderId < (after .empty rs).keys.reverse.length := by
        rw [List.length_reverse, keys, List.length_map, ← List.length_reverse]
        exact (List.getElem?_eq_some_iff.mp hpat).1
      exact (List.getElem?_inj hlt (List.nodup_reverse.mpr hkept.nodup)).mp hkeys
  case failed =>
    intro r e he
    rcases r.compile_cases hkept with ⟨_, hr, -⟩ | ⟨p, c', hr, -⟩
    · rw [hr]
    · rw [hr] at he
      cases he
  case size =>
    have hempty : ShaderCache.empty.keys.toFinset = ∅ := rfl
    rw [hempty, Finset.empty_union] at hheld
    rw [← hheld, List.toFinset_card_of_nodup hkept.nodup, keys, List.length_map]
    rfl

end ShaderCache

end TexelFlow
