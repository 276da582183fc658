/-
Patches of segments, beats and scenes as overlays. A patch that is taken writes
the row overlaid with its fields; overlays compose, but a patch whose author the
table refuses is lost as a whole.
-/
import DataApi.Proofs.FailsClosed

namespace DataApi.RowPatches

open Relational ReadCommitted Resumption Handler DataApi.Uniform FailsClosed

/-! ## Overlays -/

/-- Each field from `q` if given, else from `p`. -/
def overlay (p q : PatchInput) : PatchInput :=
  { text := q.text.or p.text
    title := q.title.or p.title
    summary := q.summary.or p.summary
    confidence := q.confidence.or p.confidence
    startMs := q.startMs.or p.startMs
    endMs := q.endMs.or p.endMs
    flags := q.flags.or p.flags
    authorUserPseudoId := q.authorUserPseudoId.or p.authorUserPseudoId }

/-- The fields the resource has. -/
def native (rt : ResourceTable) (p : PatchInput) : PatchInput :=
  match rt.shape with
  | .segment => { p with title := none, summary := none }
  | .titleSummary => { p with text := none, confidence := none }

def appliedColumns (rt : ResourceTable) (p : PatchInput) : TextColumns → TextColumns
  | .segment pid t c => match rt.shape with
    | .segment => .segment pid (p.text.getD t) (p.confidence.getD c)
    | .titleSummary => .segment pid t c
  | .titleSummary t s => match rt.shape with
    | .segment => .titleSummary t s
    | .titleSummary => .titleSummary (p.title.getD t) (p.summary.getD s)

/-- The row, overlaid with the fields of the patch. -/
def applied (rt : ResourceTable) (p : PatchInput) (r : UniformPgRow) : UniformPgRow :=
  { r with
    startMs := p.startMs.getD r.startMs
    endMs := p.endMs.getD r.endMs
    columns := appliedColumns rt p r.columns
    flags := p.flags.getD r.flags
    authorUserPseudoId := (p.authorUserPseudoId.map (·.raw)).or r.authorUserPseudoId }

/-- The row with another tag and time of writing. -/
def stamp (tag : String) (t : Timestamp) (r : UniformPgRow) : UniformPgRow := { r with etag := tag, updatedAt := t }

/-- Apart from etag and updated_at. -/
def Same (r r' : UniformPgRow) : Prop := ∃ tag t, r' = stamp tag t r

section
variable {rt : ResourceTable} {p q : PatchInput} {r r' r'' : UniformPgRow} {u : UniformRow}

theorem Same.refl (r : UniformPgRow) : Same r r := ⟨r.etag, r.updatedAt, rfl⟩

theorem same_stamp (tag : String) (t : Timestamp) (r : UniformPgRow) : Same r (stamp tag t r) := ⟨tag, t, rfl⟩

theorem Same.symm (h : Same r r') : Same r' r := by
  obtain ⟨tag, t, rfl⟩ := h
  exact ⟨r.etag, r.updatedAt, rfl⟩

theorem Same.trans (h : Same r r') (h' : Same r' r'') : Same r r'' := by
  obtain ⟨tag, t, rfl⟩ := h
  obtain ⟨tag', t', rfl⟩ := h'
  exact ⟨tag', t', rfl⟩

/-- Overlaying does not look at what the stamp sets. -/
theorem applied_stamp (tag : String) (t : Timestamp) : applied rt p (stamp tag t r) = stamp tag t (applied rt p r) := rfl

theorem Same.applied (h : Same r r') (rt : ResourceTable) (p : PatchInput) : Same (applied rt p r) (RowPatches.applied rt p r') := by
  obtain ⟨tag, t, rfl⟩ := h
  exact ⟨tag, t, applied_stamp tag t⟩

theorem getD_or {α : Type} (x y : Option α) (a : α) : (y.or x).getD a = y.getD (x.getD a) := by
  cases y <;> rfl

theorem appliedColumns_overlay (c : TextColumns) :
    appliedColumns rt q (appliedColumns rt p c) = appliedColumns rt (overlay p q) c := by
  cases c <;> cases rt <;> simp [appliedColumns, overlay, ResourceTable.shape]

/-- One overlay after another is the overlay of the second applied the first. -/
theorem applied_overlay : applied rt q (applied rt p r) = applied rt (overlay p q) r := by
  have hauthor : (q.authorUserPseudoId.map (·.raw)).or ((p.authorUserPseudoId.map (·.raw)).or r.authorUserPseudoId) =
      ((q.authorUserPseudoId.or p.authorUserPseudoId).map (·.raw)).or r.authorUserPseudoId := by
    cases q.authorUserPseudoId <;> rfl
  simp only [applied, appliedColumns_overlay, overlay, getD_or, hauthor]

theorem overlay_self (p : PatchInput) : overlay p p = p := by
  have hself : ∀ {α : Type} (x : Option α), x.or x = x := fun x => by cases x <;> rfl
  simp only [overlay, hself]

/-- Fields the resource lacks are not written. -/
theorem applied_native : applied rt (native rt p) r = applied rt p r := by
  cases hc : r.columns <;> cases rt <;> simp [applied, appliedColumns, native, ResourceTable.shape, hc]

/-- What the UPDATE writes, through the row as it reads, is the overlay. -/
theorem setPatched_eq (hread : rowFromPg r = .ok u) (tag : ETag) (e : Env) :
    setPatched (applyPatch rt p u) p.authorUserPseudoId tag e r = stamp tag.raw e.now (applied rt p r) := by
  obtain ⟨pid, -, h⟩ := bind_ok hread
  obtain ⟨author, -, h⟩ := bind_ok h
  obtain rfl := Except.ok.inj h
  cases hc : r.columns <;> cases rt <;>
    simp [setPatched, applyPatch, stamp, applied, appliedColumns, ResourceTable.shape, hc]

/-! ## Overlays without effect -/

/-- The fields of `p` that `q` does not give. -/
def rest (p q : PatchInput) : PatchInput :=
  { text := if q.text.isSome then none else p.text
    title := if q.title.isSome then none else p.title
    summary := if q.summary.isSome then none else p.summary
    confidence := if q.confidence.isSome then none else p.confidence
    startMs := if q.startMs.isSome then none else p.startMs
    endMs := if q.endMs.isSome then none else p.endMs
    flags := if q.flags.isSome then none else p.flags
    authorUserPseudoId := if q.authorUserPseudoId.isSome then none else p.authorUserPseudoId }

def HoldsColumns (rt : ResourceTable) (p : PatchInput) : TextColumns → Prop
  | .segment _ t c => rt.shape = .segment → (∀ x ∈ p.text, x = t) ∧ ∀ x ∈ p.confidence, x = c
  | .titleSummary t s => rt.shape = .titleSummary → (∀ x ∈ p.title, x = t) ∧ ∀ x ∈ p.summary, x = s

/-- The row has every value the patch gives. -/
structure Holds (rt : ResourceTable) (p : PatchInput) (r : UniformPgRow) : Prop where
  startMs : ∀ x ∈ p.startMs, x = r.startMs
  endMs : ∀ x ∈ p.endMs, x = r.endMs
  flags : ∀ x ∈ p.flags, x = r.flags
  author : ∀ x ∈ p.authorUserPseudoId, some x.raw = r.authorUserPseudoId
  columns : HoldsColumns rt p r.columns

theorem getD_getD_iff {α : Type} (x y : Option α) (a : α) :
    y.getD (x.getD a) = y.getD a ↔ ∀ v ∈ (if y.isSome then none else x), v = a := by
  cases y <;> cases x <;> simp

theorem appliedColumns_rest_iff (c : TextColumns) :
    appliedColumns rt q (appliedColumns rt p c) = appliedColumns rt q c ↔ HoldsColumns rt (rest p q) c := by
  cases c <;> cases rt <;> simp [appliedColumns, HoldsColumns, rest, ResourceTable.shape, getD_getD_iff]

/-- An overlay under another has no effect if the row has what shows of it. -/
theorem applied_rest_iff : applied rt q (applied rt p r) = applied rt q r ↔ Holds rt (rest p q) r := by
  have hauthor : (q.authorUserPseudoId.map (·.raw)).or ((p.authorUserPseudoId.map (·.raw)).or r.authorUserPseudoId) =
      (q.authorUserPseudoId.map (·.raw)).or r.authorUserPseudoId ↔
        ∀ x ∈ (rest p q).authorUserPseudoId, some x.raw = r.authorUserPseudoId := by
    simp only [rest]
    cases q.authorUserPseudoId <;> cases p.authorUserPseudoId <;> simp
  have hcolumns : appliedColumns rt q (appliedColumns rt p r.columns) = appliedColumns rt q r.columns ↔
      HoldsColumns rt (rest p q) r.columns := appliedColumns_rest_iff r.columns
  constructor
  · intro h
    simp only [applied, UniformPgRow.mk.injEq, getD_getD_iff, true_and, and_true] at h
    obtain ⟨hstart, hend, hcols, hflags, ha⟩ := h
    exact ⟨hstart, hend, hflags, hauthor.1 ha, hcolumns.1 hcols⟩
  · intro h
    simp only [applied, UniformPgRow.mk.injEq, getD_getD_iff, true_and, and_true]
    exact ⟨h.startMs, h.endMs, hcolumns.2 h.columns, h.flags, hauthor.2 h.author⟩

theorem applied_empty (rt : ResourceTable) (r : UniformPgRow) : applied rt {} r = r := by
  have hcolumns : appliedColumns rt {} r.columns = r.columns := by
    cases r.columns <;> cases rt <;> rfl
  unfold applied
  rw [hcolumns]
  rfl

theorem applied_iff : applied rt p r = r ↔ Holds rt p r := by
  have h : applied rt {} (applied rt p r) = applied rt {} r ↔ Holds rt (rest p {}) r := applied_rest_iff
  rwa [applied_empty, applied_empty] at h

/-- Overlays of one row that are the same are equal. -/
theorem same_applied_iff : Same (applied rt p r) (applied rt q r) ↔ applied rt p r = applied rt q r := by
  constructor
  · rintro ⟨tag, t, h⟩
    have htag : r.etag = tag := congrArg UniformPgRow.etag h
    have ht : r.updatedAt = t := congrArg UniformPgRow.updatedAt h
    rw [h, ← htag, ← ht]
    rfl
  · intro h
    rw [h]
    exact Same.refl _

end

/-! ## Patch requests -/

/-- A patch request, and what its operations meet. -/
structure Patch where
  rt : ResourceTable
  id : Uuid
  svc : String
  headers : HeaderMap
  body : PatchInput
  env : Nat → Env

def Patch.call (x : Patch) : Call := { request := .patchRow x.rt x.svc x.id x.headers x.body, env := x.env }

/-- The row of a resource. -/
def stored (rt : ResourceTable) (id : Uuid) (db : Db) : Option UniformPgRow :=
  ((uniformT rt).rows db).find? (byId id)

/-- The request names this row, asks for no tag, and nothing fails. -/
structure Patch.Plain (rt : ResourceTable) (id : Uuid) (p : PatchInput) (x : Patch) : Prop where
  table : x.rt = rt
  row : x.id = id
  body : x.body = p
  unconditional : ifMatch x.headers = none
  works : ∀ n, (x.env n).fails = false

/-- The author, if given, is a pseudonym. -/
def Acceptable (p : PatchInput) : Prop := p.authorUserPseudoId.all (fun a => isValidPseudoId a.raw) = true

instance (p : PatchInput) : Decidable (Acceptable p) := inferInstanceAs (Decidable (_ = true))

instance (r : UniformPgRow) : Decidable (EtagHistory.Reads r) := decidable_of_iff _ EtagHistory.reads_iff.symm

/-- What one patch leaves of a row, its tag and time of writing aside. -/
def outcome (rt : ResourceTable) (p : PatchInput) (r : UniformPgRow) : UniformPgRow :=
  if EtagHistory.Reads r ∧ Acceptable p then applied rt p r else r

section
variable {rt : ResourceTable} {id : Uuid} {p q : PatchInput} {r : UniformPgRow} {st : AppState} {sv : Sv Unit} {x : Patch}

theorem stored_iff {db : Db} (hu : KeysUnique db) : stored rt id db = some r ↔ Row.uniform rt r ∈ db ∧ r.id = id := by
  constructor
  · intro h
    exact ⟨(uniformT rt).mem_rows.1 (List.mem_of_find?_eq_some h), by simpa [byId] using List.find?_some h⟩
  · rintro ⟨hmem, rfl⟩
    have h : lookup (Key.uniform rt r.id) db = some (.uniform rt r) := hu.lookup_iff.2 ⟨hmem, rfl⟩
    rw [lookup_uniform, Option.map_eq_some_iff] at h
    obtain ⟨r', hr', heq⟩ := h
    rw [stored, hr', (Row.uniform.inj heq).2]

/-- A row that is written is the one stored. -/
theorem stored_written {db db' : Db} {r' : UniformPgRow} (hr : stored rt id db = some r)
    (h : Logged (Write.apply db (.update (.uniform rt r'))) db') (hid : r'.id = r.id) : stored rt id db' = some r' := by
  have hafter := lookup_written hr h hid
  rw [lookup_uniform, Option.map_eq_some_iff] at hafter
  obtain ⟨r'', hr'', heq⟩ := hafter
  rw [stored, hr'', (Row.uniform.inj heq).2]

/-- The database takes the patch, and the tag it asks for is the row's. -/
def Taken (x : Patch) (r : UniformPgRow) : Prop :=
  Patchable x.env x.body r ∧ (ifMatch x.headers).any (· ≠ ⟨r.etag⟩) = false

/-- A patch that is taken overlays its row; any other is refused and changes
nothing. -/
theorem patch_spec (st : AppState) (x : Patch) (hu : KeysUnique sv.db) :
    (∃ r tag t, stored x.rt x.id sv.db = some r ∧ Taken x r ∧
      Logged (Write.apply sv.db (.update (.uniform x.rt (stamp tag t (applied x.rt x.body r))))) (serve st x.call sv).2.db) ∨
    (∀ r, stored x.rt x.id sv.db = some r → ¬Taken x r) ∧ (∃ e, (serve st x.call sv).1 = .error e) ∧
      (serve st x.call sv).2.db = sv.db := by
  by_cases h : ∃ r, stored x.rt x.id sv.db = some r ∧ Taken x r
  · obtain ⟨r, hr, hp, hc⟩ := h
    obtain ⟨u, hread⟩ := hp.reads
    refine .inl ⟨r, (x.env 2).etag.raw, (x.env 0).now, hr, ⟨hp, hc⟩, ?_⟩
    have hends : Ends x.env 0 ⟨none, sv.db, sv.world⟩ (UniformRoutes.patchRow x.rt x.svc x.id x.headers x.body) fun _ s =>
        Logged _ s.db := patchRow_written hu hr hp hread hc
    rw [setPatched_eq hread] at hends
    exact (serve_ends (x := x.call) (Q := fun _ db _ => Logged _ db)).2 (ends_map.2 hends)
  · have hno : ∀ r, stored x.rt x.id sv.db = some r → ¬Taken x r := fun r hr hx => h ⟨r, hr, hx⟩
    refine .inr ⟨hno, ?_⟩
    have hends : Ends x.env 0 ⟨none, sv.db, sv.world⟩ (UniformRoutes.patchRow x.rt x.svc x.id x.headers x.body) fun a s =>
        (∃ e, a = .error e) ∧ s.db = sv.db := patchRow_blocked fun r hr hp =>
      (Bool.eq_false_or_eq_true _).resolve_right fun hc => hno r hr ⟨hp, hc⟩
    exact (serve_ends (x := x.call) (Q := fun a db _ => (∃ e, a = .error e) ∧ db = sv.db)).2
      (ends_map.2 (hends.mono fun _ _ => refused_map))

/-- Keys stay single. -/
theorem patch_keys (st : AppState) (x : Patch) (hu : KeysUnique sv.db) : KeysUnique (serve st x.call sv).2.db := by
  rcases patch_spec st x hu with ⟨r, tag, t, -, -, hlogged⟩ | ⟨-, -, hdb⟩
  · exact hlogged.keys (hu.update _)
  · rw [hdb]; exact hu

/-- A plain patch is taken if the row reads and its author is acceptable. -/
theorem taken_iff (hx : x.Plain rt id p) : Taken x r ↔ EtagHistory.Reads r ∧ Acceptable p := by
  obtain ⟨-, -, rfl, hcond, hworks⟩ := hx
  unfold Taken Acceptable
  rw [hcond]
  constructor
  · rintro ⟨⟨-, hreads, hauthor⟩, -⟩
    refine ⟨hreads, ?_⟩
    cases ha : x.body.authorUserPseudoId with
    | none => rfl
    | some a => simpa [ha] using hauthor
  · rintro ⟨hreads, hauthor⟩
    refine ⟨⟨fun n _ => hworks n, hreads, ?_⟩, rfl⟩
    cases ha : x.body.authorUserPseudoId with
    | none => exact (EtagHistory.reads_iff.1 hreads).2
    | some a => simpa [ha] using hauthor

theorem patch_outcome (st : AppState) (hu : KeysUnique sv.db) (hr : stored rt id sv.db = some r) (hx : x.Plain rt id p) :
    ∃ r', stored rt id (serve st x.call sv).2.db = some r' ∧ Same (outcome rt p r) r' := by
  have htaken := taken_iff (r := r) hx
  unfold outcome
  obtain ⟨rfl, rfl, rfl, -, -⟩ := hx
  rcases patch_spec st x hu with ⟨r', tag, t, hr', hx', hlogged⟩ | ⟨hno, -, hdb⟩
  · obtain rfl := Option.some.inj (hr.symm.trans hr')
    refine ⟨_, stored_written hr hlogged rfl, ?_⟩
    rw [if_pos (htaken.1 hx')]
    exact same_stamp tag t _
  · refine ⟨r, by rw [hdb]; exact hr, ?_⟩
    rw [if_neg fun h => hno r hr (htaken.2 h)]
    exact Same.refl r

end

/-! ## The frame -/

/-- The columns no patch sets. -/
structure Fixed (r r' : UniformPgRow) : Prop where
  id : r'.id = r.id
  sessionId : r'.sessionId = r.sessionId
  clientId : r'.clientId = r.clientId
  pseudoId : pseudoColumn r'.columns = pseudoColumn r.columns
  original : r'.original = r.original
  authorService : r'.authorService = r.authorService
  createdAt : r'.createdAt = r.createdAt

/-- What these patches leave alone. -/
structure Framed (xs : List Patch) (db db' : Db) : Prop where
  fixed : ∀ rt id r, stored rt id db = some r → ∃ r', stored rt id db' = some r' ∧ Fixed r r'
  others : ∀ y : Row, (∀ x ∈ xs, key y ≠ .uniform x.rt x.id) → (∀ a, y ≠ .audit a) → (y ∈ db' ↔ y ∈ db)
  audit : ∀ a, Row.audit a ∈ db → Row.audit a ∈ db'

section
variable {rt : ResourceTable} {id : Uuid} {p : PatchInput} {r r' r'' : UniformPgRow} {db db' db'' : Db} {xs : List Patch}
  {st : AppState} {sv : Sv Unit} {x : Patch}

theorem Fixed.refl (r : UniformPgRow) : Fixed r r := ⟨rfl, rfl, rfl, rfl, rfl, rfl, rfl⟩

theorem Fixed.trans (h : Fixed r r') (h' : Fixed r' r'') : Fixed r r'' where
  id := h'.id.trans h.id
  sessionId := h'.sessionId.trans h.sessionId
  clientId := h'.clientId.trans h.clientId
  pseudoId := h'.pseudoId.trans h.pseudoId
  original := h'.original.trans h.original
  authorService := h'.authorService.trans h.authorService
  createdAt := h'.createdAt.trans h.createdAt

theorem fixed_applied (rt : ResourceTable) (p : PatchInput) (tag : String) (t : Timestamp) (r : UniformPgRow) :
    Fixed r (stamp tag t (applied rt p r)) := by
  have hpseudo : pseudoColumn (appliedColumns rt p r.columns) = pseudoColumn r.columns := by
    cases r.columns <;> cases rt <;> rfl
  exact ⟨rfl, rfl, rfl, hpseudo, rfl, rfl, rfl⟩

theorem Framed.refl (db : Db) : Framed xs db db where
  fixed _ _ r h := ⟨r, h, Fixed.refl r⟩
  others _ _ _ := Iff.rfl
  audit _ h := h

theorem mem_update {y : Row} (hk : key y ≠ .uniform rt r.id) :
    y ∈ Write.apply db (.update (.uniform rt r)) ↔ y ∈ db := by
  simp only [Write.apply, List.mem_map]
  constructor
  · rintro ⟨z, hz, hzy⟩
    split at hzy
    · exact absurd (hzy ▸ rfl) hk
    · exact hzy ▸ hz
  · intro hy
    exact ⟨y, hy, if_neg hk⟩

/-- One patch. -/
theorem patch_framed (st : AppState) (x : Patch) (hu : KeysUnique sv.db) :
    Framed [x] sv.db (serve st x.call sv).2.db := by
  rcases patch_spec st x hu with ⟨r, tag, t, hr, -, hlogged⟩ | ⟨-, -, hdb⟩
  · have hid : (stamp tag t (applied x.rt x.body r)).id = x.id := ((stored_iff hu).1 hr).2
    constructor
    · intro rt id r' hr'
      by_cases hkey : rt = x.rt ∧ id = x.id
      · obtain ⟨rfl, rfl⟩ := hkey
        obtain rfl := Option.some.inj (hr.symm.trans hr')
        exact ⟨_, stored_written hr hlogged rfl, fixed_applied _ _ _ _ _⟩
      · obtain ⟨hmem, rfl⟩ := (stored_iff hu).1 hr'
        refine ⟨r', (stored_iff (hlogged.keys (hu.update _))).2 ⟨?_, rfl⟩, Fixed.refl r'⟩
        rw [hlogged.mem (by simp), mem_update]
        · exact hmem
        · intro heq
          rw [hid] at heq
          exact hkey (Key.uniform.inj heq)
    · intro y hy ha
      rw [hlogged.mem ha, mem_update]
      rw [hid]
      exact hy x (by simp)
    · intro a ha
      obtain ⟨as, has⟩ := hlogged.rows
      rw [has, List.mem_append, mem_update]
      · exact .inl ha
      · simp [key, Row.key]
  · rw [hdb]
    exact Framed.refl _

theorem Framed.trans {x : Patch} (h : Framed [x] db db') (h' : Framed xs db' db'') : Framed (x :: xs) db db'' where
  fixed rt id r hr := by
    obtain ⟨r', hr', hfixed⟩ := h.fixed rt id r hr
    obtain ⟨r'', hr'', hfixed'⟩ := h'.fixed rt id r' hr'
    exact ⟨r'', hr'', hfixed.trans hfixed'⟩
  others y hy ha := by
    rw [h'.others y (fun x' hx' => hy x' (List.mem_cons_of_mem _ hx')) ha]
    exact h.others y (fun x' hx' => hy x' (by rw [List.mem_singleton.1 hx']; exact List.mem_cons_self)) ha
  audit a ha := h'.audit a (h.audit a ha)

/-- Any sequence of patches. -/
theorem patches_framed (st : AppState) (xs : List Patch) : ∀ {sv : Sv Unit}, KeysUnique sv.db →
    Framed xs sv.db (after st sv (xs.map Patch.call)).db := by
  induction xs with
  | nil => exact fun _ => Framed.refl _
  | cons x xs ih => exact fun hu => (patch_framed st x hu).trans (ih (patch_keys st x hu))

end
/-! ## The law -/

/-- The row is the same in both states, apart from etag and updated_at. -/
def SameAt (rt : ResourceTable) (id : Uuid) (db db' : Db) : Prop :=
  ∃ r r', stored rt id db = some r ∧ stored rt id db' = some r' ∧ Same r r'

/-- Patches of a row compose, repeat without effect, and respect the frame. -/
structure Lawful (st : AppState) (sv : Sv Unit) (rt : ResourceTable) (id : Uuid) (p q : PatchInput) : Prop where
  composes : ∀ x y z : Patch, x.Plain rt id p → y.Plain rt id q → z.Plain rt id (overlay p q) →
    SameAt rt id (after st sv [x.call, y.call]).db (after st sv [z.call]).db
  repeats : ∀ x y : Patch, x.Plain rt id p → y.Plain rt id p →
    SameAt rt id (after st sv [x.call, y.call]).db (after st sv [x.call]).db
  foreign : ∀ x y : Patch, x.Plain rt id p → y.Plain rt id (native rt p) →
    SameAt rt id (after st sv [x.call]).db (after st sv [y.call]).db
  frame : ∀ xs : List Patch, Framed xs sv.db (after st sv (xs.map Patch.call)).db

/-- Where one of the authors is refused and the other is not, the patch that is
lost was not needed: the one that is taken adds nothing, or, where its author
replaces the refused one, hides all of the other that the row lacks. -/
def Composable (rt : ResourceTable) (p q : PatchInput) (r : UniformPgRow) : Prop :=
  EtagHistory.Reads r → (Acceptable p → ¬Acceptable q → Holds rt p r) ∧
    (¬Acceptable p → Acceptable q → Holds rt (if q.authorUserPseudoId.isSome then rest p q else q) r)

section
variable {rt : ResourceTable} {id : Uuid} {p q : PatchInput} {r r' : UniformPgRow} {st : AppState} {sv : Sv Unit} {x y : Patch}

theorem Same.reads (h : Same r r') : EtagHistory.Reads r' ↔ EtagHistory.Reads r := by
  obtain ⟨tag, t, rfl⟩ := h
  rw [EtagHistory.reads_iff, EtagHistory.reads_iff]
  rfl

theorem Same.outcome (h : Same r r') (rt : ResourceTable) (p : PatchInput) :
    Same (outcome rt p r) (RowPatches.outcome rt p r') := by
  unfold RowPatches.outcome
  simp only [h.reads]
  split
  · exact h.applied rt p
  · exact h

/-- A row that is overlaid with an acceptable author still reads. -/
theorem reads_applied (hr : EtagHistory.Reads r) (hp : Acceptable p) : EtagHistory.Reads (applied rt p r) := by
  rw [EtagHistory.reads_iff] at hr ⊢
  have hpseudo := (fixed_applied rt p r.etag r.updatedAt r).pseudoId
  refine ⟨by rw [show (applied rt p r).columns = (stamp r.etag r.updatedAt (applied rt p r)).columns from rfl, hpseudo]; exact hr.1, ?_⟩
  unfold Acceptable at hp
  unfold applied
  cases ha : p.authorUserPseudoId with
  | none => exact hr.2
  | some a => simpa [ha] using hp

/-- The second author decides for the overlay, if it is given. -/
theorem acceptable_overlay : Acceptable (overlay p q) ↔
    if q.authorUserPseudoId.isSome then Acceptable q else Acceptable p := by
  unfold Acceptable overlay
  cases q.authorUserPseudoId <;> simp

theorem not_acceptable_given (h : ¬Acceptable q) : q.authorUserPseudoId.isSome = true := by
  unfold Acceptable at h
  cases hq : q.authorUserPseudoId with
  | none => rw [hq] at h; exact absurd rfl h
  | some a => rfl

theorem same_self_iff : Same (applied rt p r) r ↔ Holds rt p r := by
  have h : Same (applied rt p r) (applied rt {} r) ↔ applied rt p r = applied rt {} r := same_applied_iff
  rw [applied_empty] at h
  rw [h, applied_iff]

theorem outcome_taken (hr : EtagHistory.Reads r) (hp : Acceptable p) : outcome rt p r = applied rt p r := if_pos ⟨hr, hp⟩

theorem outcome_refused (hp : ¬Acceptable p) : outcome rt p r = r := if_neg fun h => hp h.2

theorem outcome_unread (hr : ¬EtagHistory.Reads r) : outcome rt p r = r := if_neg fun h => hr h.1

/-- Patch by patch against the overlay, by who is refused. -/
theorem outcomes_same_iff : Same (outcome rt q (outcome rt p r)) (outcome rt (overlay p q) r) ↔ Composable rt p q r := by
  unfold Composable
  by_cases hr : EtagHistory.Reads r
  · by_cases hp : Acceptable p <;> by_cases hq : Acceptable q
    · have hpq : Acceptable (overlay p q) := acceptable_overlay.2 (by split <;> assumption)
      rw [outcome_taken hr hp, outcome_taken (reads_applied hr hp) hq, outcome_taken hr hpq, applied_overlay]
      exact iff_of_true (Same.refl _) fun _ => ⟨fun _ h => absurd hq h, fun h => absurd hp h⟩
    · have hpq : ¬Acceptable (overlay p q) := by
        rw [acceptable_overlay, if_pos (not_acceptable_given hq)]
        exact hq
      rw [outcome_taken hr hp, outcome_refused hq, outcome_refused hpq, same_self_iff]
      exact ⟨fun h _ => ⟨fun _ _ => h, fun h => absurd hp h⟩, fun h => (h hr).1 hp hq⟩
    · rw [outcome_refused hp, outcome_taken hr hq]
      have hside : Same (applied rt q r) (outcome rt (overlay p q) r) ↔
          Holds rt (if q.authorUserPseudoId.isSome then rest p q else q) r := by
        by_cases hgiven : q.authorUserPseudoId.isSome = true
        · have hpq : Acceptable (overlay p q) := by
            rw [acceptable_overlay, if_pos hgiven]
            exact hq
          rw [if_pos hgiven, outcome_taken hr hpq, ← applied_rest_iff, applied_overlay, same_applied_iff, eq_comm]
        · have hpq : ¬Acceptable (overlay p q) := by
            rw [acceptable_overlay, if_neg hgiven]
            exact hp
          rw [if_neg hgiven, outcome_refused hpq, same_self_iff]
      rw [hside]
      exact ⟨fun h _ => ⟨fun h => absurd h hp, fun _ _ => h⟩, fun h => (h hr).2 hp hq⟩
    · have hpq : ¬Acceptable (overlay p q) := by
        rw [acceptable_overlay, if_pos (not_acceptable_given hq)]
        exact hq
      rw [outcome_refused hp, outcome_refused hq, outcome_refused hpq]
      exact iff_of_true (Same.refl r) fun _ => ⟨fun h => absurd h hp, fun _ h => absurd h hq⟩
  · rw [outcome_unread (p := p) hr, outcome_unread hr, outcome_unread hr]
    exact iff_of_true (Same.refl r) fun h => absurd h hr

/-- Two patches, one after the other. -/
theorem patches_outcome (st : AppState) (hu : KeysUnique sv.db) (hr : stored rt id sv.db = some r) (hx : x.Plain rt id p)
    (hy : y.Plain rt id q) : ∃ r', stored rt id (after st sv [x.call, y.call]).db = some r' ∧
      Same (outcome rt q (outcome rt p r)) r' := by
  obtain ⟨r₁, hr₁, hsame₁⟩ := patch_outcome st hu hr hx
  obtain ⟨r₂, hr₂, hsame₂⟩ := patch_outcome st (patch_keys st x hu) hr₁ hy
  exact ⟨r₂, hr₂, (hsame₁.outcome rt q).trans hsame₂⟩

/-- A plain request, for any patch. -/
def plain (rt : ResourceTable) (id : Uuid) (p : PatchInput) : Patch :=
  { rt := rt, id := id, svc := "bot", headers := [], body := p, env := Sample.env }

theorem plain_plain (rt : ResourceTable) (id : Uuid) (p : PatchInput) : (plain rt id p).Plain rt id p :=
  ⟨rfl, rfl, rfl, rfl, fun _ => rfl⟩

/-- Patched twice, a row is as it was after the first time. -/
theorem outcome_twice : outcome rt p (outcome rt p r) = outcome rt p r := by
  by_cases hr : EtagHistory.Reads r
  · by_cases hp : Acceptable p
    · rw [outcome_taken hr hp, outcome_taken (reads_applied hr hp) hp, applied_overlay, overlay_self]
    · rw [outcome_refused hp, outcome_refused hp]
  · rw [outcome_unread hr, outcome_unread hr]

theorem outcome_native : outcome rt (native rt p) r = outcome rt p r := by
  have hauthor : Acceptable (native rt p) ↔ Acceptable p := by
    cases rt <;> exact Iff.rfl
  unfold outcome
  simp only [hauthor, applied_native]

theorem Lawful.outcomes (h : Lawful st sv rt id p q) (hu : KeysUnique sv.db) (hr : stored rt id sv.db = some r) :
    Same (outcome rt q (outcome rt p r)) (outcome rt (overlay p q) r) := by
  obtain ⟨r₁, r₂, hr₁, hr₂, hsame⟩ := h.composes _ _ _ (plain_plain rt id p) (plain_plain rt id q)
    (plain_plain rt id (overlay p q))
  obtain ⟨r₁', hr₁', hsame₁⟩ := patches_outcome st hu hr (plain_plain rt id p) (plain_plain rt id q)
  obtain ⟨r₂', hr₂', hsame₂⟩ := patch_outcome st hu hr (plain_plain rt id (overlay p q))
  obtain rfl := Option.some.inj (hr₁.symm.trans hr₁')
  obtain rfl := Option.some.inj (hr₂.symm.trans hr₂')
  exact (hsame₁.trans hsame).trans hsame₂.symm

/-- The law holds of a stored row and two patches exactly where none of them is
lost to its author alone. -/
theorem lawful_iff (st : AppState) (hu : KeysUnique sv.db) (hr : stored rt id sv.db = some r) (p q : PatchInput) :
    Lawful st sv rt id p q ↔ Composable rt p q r := by
  rw [← outcomes_same_iff]
  constructor
  · exact fun h => h.outcomes hu hr
  · intro h
    refine ⟨fun x y z hx hy hz => ?_, fun x y hx hy => ?_, fun x y hx hy => ?_, fun xs => patches_framed st xs hu⟩
    · obtain ⟨r₁, hr₁, hsame₁⟩ := patches_outcome st hu hr hx hy
      obtain ⟨r₂, hr₂, hsame₂⟩ := patch_outcome st hu hr hz
      exact ⟨r₁, r₂, hr₁, hr₂, (hsame₁.symm.trans h).trans hsame₂⟩
    · obtain ⟨r₁, hr₁, hsame₁⟩ := patches_outcome st hu hr hx hy
      obtain ⟨r₂, hr₂, hsame₂⟩ := patch_outcome st hu hr hx
      rw [outcome_twice] at hsame₁
      exact ⟨r₁, r₂, hr₁, hr₂, hsame₁.symm.trans hsame₂⟩
    · obtain ⟨r₁, hr₁, hsame₁⟩ := patch_outcome st hu hr hx
      obtain ⟨r₂, hr₂, hsame₂⟩ := patch_outcome st hu hr hy
      rw [outcome_native] at hsame₂
      exact ⟨r₁, r₂, hr₁, hr₂, hsame₁.symm.trans hsame₂⟩

end

/-! ## A sample -/

def sampleRow : UniformPgRow :=
  { id := 5, sessionId := Sample.sessionId, clientId := "seg-1", startMs := 0, endMs := 10
    columns := .segment none "hello" none, flags := .obj [], original := none, etag := "e0", authorService := "bot"
    authorUserPseudoId := none, createdAt := 0, updatedAt := 0 }

def sampleServer : Sv Unit := Sample.server [.session Sample.session, .uniform .segments sampleRow]

def retext (t : String) (author : Option PseudoId) : PatchInput := { text := some t, authorUserPseudoId := author }

/-- Two patches by pseudonyms compose. -/
theorem lawful_sample : stored .segments 5 sampleServer.db = some sampleRow ∧
    Lawful Sample.state sampleServer .segments 5 (retext "one" none) (retext "two" (some ⟨Sample.speaker⟩)) := by
  have hstored : stored .segments 5 sampleServer.db = some sampleRow := rfl
  refine ⟨hstored, (lawful_iff Sample.state (by decide) hstored _ _).2 fun _ => ⟨fun _ hq => ?_, fun hp => ?_⟩⟩
  · exact absurd (by decide +kernel) hq
  · exact absurd (by decide) hp

/-- A patch by the mixed sentinel passes the decoder and is refused by the table;
the overlay of the next over it is refused with it. -/
theorem lost_with_overlay : (PseudoId.deserialize "mixed").toOption = some ⟨"mixed"⟩ ∧ KeysUnique sampleServer.db ∧
    stored .segments 5 sampleServer.db = some sampleRow ∧
    ¬Lawful Sample.state sampleServer .segments 5 (retext "one" (some ⟨"mixed"⟩)) { startMs := some 5 } := by
  have hstored : stored .segments 5 sampleServer.db = some sampleRow := rfl
  refine ⟨by decide +kernel, by decide, hstored, fun h => ?_⟩
  have hreads : EtagHistory.Reads sampleRow := ⟨_, rfl⟩
  have hholds := (outcomes_same_iff.1 (h.outcomes (by decide) hstored) hreads).2 (by decide +kernel) (by decide)
  exact absurd (hholds.startMs 5 rfl) (by decide)

end DataApi.RowPatches
