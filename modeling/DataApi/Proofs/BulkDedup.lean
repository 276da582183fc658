/-
Bulk inserts. The client ids that are there are looked up once, before the
loop; an id that is new and named twice then meets the UNIQUE constraint, and
the whole batch is refused. Otherwise the first of each new id is entered, and
sending the batch again enters nothing.
-/
import DataApi.Lib.Intact
import DataApi.Outcomes
import DataApi.Proofs.EtagHistory

namespace DataApi.BulkDedup

open Relational ReadCommitted Resumption Handler DataApi.Uniform
open EtagHistory (Reads reads_iff)

/-! ## What is claimed -/

/-- The client ids in a session. -/
def taken (rt : ResourceTable) (sid : Uuid) (db : Db) : List String :=
  (((uniformT rt).rows db).filter fun r => r.sessionId = sid).map (·.clientId)

/-- The inputs whose id is not in `seen`, the first of each id. -/
def firsts : List String → List CreateInput → List CreateInput
  | _, [] => []
  | seen, i :: rest => if i.clientId ∈ seen then firsts seen rest else i :: firsts (i.clientId :: seen) rest

/-- The row has the columns of the input. -/
def Built (rt : ResourceTable) (sid : Uuid) (svc : String) (i : CreateInput) (r : UniformPgRow) : Prop :=
  ∃ id etag now, r =
    { id := id, sessionId := sid, clientId := i.clientId, startMs := i.startMs, endMs := i.endMs
      columns := match rt.shape with
        | .segment => .segment (i.pseudoId.map (·.raw)) (i.text.getD "") i.confidence
        | .titleSummary => .titleSummary (i.title.getD "") (i.summary.getD "")
      flags := i.flags.getD (.obj []), original := i.original, etag := etag, authorService := svc
      authorUserPseudoId := i.authorUserPseudoId.map (·.raw), createdAt := now, updatedAt := now }

/-- The first of each new id was entered and is reported, and the ids that
were there are reported as duplicates. -/
structure Deduplicated (rt : ResourceTable) (sid : Uuid) (svc : String) (inputs : List CreateInput) (db : Db)
    (r : BulkResult) (db' : Db) : Prop where
  entered : ∃ rows, db' = db ++ rows.map (Row.uniform rt) ∧
    List.Forall₂ (Built rt sid svc) (firsts (taken rt sid db) inputs) rows ∧
    List.Forall₂ (fun row out => rowFromPg row = .ok out) rows r.inserted
  duplicates : ∀ id, id ∈ r.deduplicatedClientIds ↔ id ∈ inputs.map (·.clientId) ∧ id ∈ taken rt sid db

/-- The batch is deduplicated, and all of it when it is sent again. -/
def FirstWins (rt : ResourceTable) (sid : Uuid) (svc : String) (inputs : List CreateInput) (db : Db) (w : World)
    (env env' : Nat → Env) : Prop :=
  Ends env 0 ⟨none, db, w⟩ (bulkInsert rt sid svc inputs) fun a s => ∃ r, a = .ok r ∧
    Deduplicated rt sid svc inputs db r s.db ∧
    Ends env' 0 ⟨none, s.db, s.world⟩ (bulkInsert rt sid svc inputs) fun a' s' => ∃ r', a' = .ok r' ∧
      r'.inserted = [] ∧ s'.db = s.db ∧ ∀ id, id ∈ r'.deduplicatedClientIds ↔ id ∈ inputs.map (·.clientId)

/-- The inputs whose id is new. -/
def newInputs (rt : ResourceTable) (sid : Uuid) (db : Db) (inputs : List CreateInput) : List CreateInput :=
  inputs.filter fun i => !(taken rt sid db).contains i.clientId

/-- The speaker column reads back; its table has no CHECK. -/
def Readable (rt : ResourceTable) (i : CreateInput) : Prop :=
  rt.shape = .segment → i.pseudoId.all (fun p => isValidPseudoId p.raw) = true

/-- The author column passes its CHECK. -/
def Storable (i : CreateInput) : Prop := i.authorUserPseudoId.all (fun p => isValidPseudoId p.raw) = true

/-- New ids that are distinct are all first. -/
theorem firsts_eq {inputs : List CreateInput} : ∀ {seen : List String},
    ((inputs.filter fun i => !seen.contains i.clientId).map (·.clientId)).Nodup →
    firsts seen inputs = inputs.filter fun i => !seen.contains i.clientId := by
  induction inputs with
  | nil => exact fun _ => rfl
  | cons i rest ih =>
    intro seen h
    rw [firsts]
    by_cases hi : i.clientId ∈ seen
    · have hfilter : (i :: rest).filter (fun i => !seen.contains i.clientId) =
          rest.filter fun i => !seen.contains i.clientId := List.filter_cons_of_neg (by simpa using hi)
      rw [if_pos hi, hfilter, ih (by rwa [hfilter] at h)]
    · have hfilter : (i :: rest).filter (fun i => !seen.contains i.clientId) =
          i :: rest.filter fun i => !seen.contains i.clientId := List.filter_cons_of_pos (by simpa using hi)
      rw [hfilter] at h ⊢
      obtain ⟨hno, hrest⟩ := List.nodup_cons.1 h
      have hsame : rest.filter (fun j => !(i.clientId :: seen).contains j.clientId) =
          rest.filter fun j => !seen.contains j.clientId := by
        refine List.filter_congr fun j hj => ?_
        by_cases hjs : j.clientId ∈ seen
        · simp [hjs]
        · have hji : j.clientId ≠ i.clientId := by
            intro hji
            exact hno (List.mem_map.2 ⟨j, List.mem_filter.2 ⟨hj, by simpa using hjs⟩, hji⟩)
          simp [hjs, hji]
      rw [if_neg hi, ih (by rwa [hsame]), hsame]

/-! ## The loop -/

section
variable {rt : ResourceTable} {sid : Uuid} {svc : String} {db : Db} {env : Nat → Env} {w : World} {b : Env}

theorem built_fresh (i : CreateInput) (etag : ETag) (e : Env) : Built rt sid svc i (freshRow rt sid svc i etag e) :=
  ⟨_, _, _, rfl⟩

theorem pseudoColumn_fresh (i : CreateInput) : pseudoColumn (freshColumns rt i) =
    if rt.shape = .segment then i.pseudoId.map (·.raw) else none := by
  rw [freshColumns]
  cases rt <;> rfl

theorem reads_fresh {i : CreateInput} {etag : ETag} {e : Env} (hs : Storable i) :
    Reads (freshRow rt sid svc i etag e) ↔ Readable rt i := by
  have hauthor : (i.authorUserPseudoId.map (·.raw)).all isValidPseudoId = true := by rw [Option.all_map]; exact hs
  rw [reads_iff]
  show (pseudoColumn (freshColumns rt i)).all isValidPseudoId = true ∧ _ ↔ _
  rw [pseudoColumn_fresh, Readable]
  by_cases hshape : rt.shape = .segment
  · simp [hshape, Option.all_map, hauthor, freshRow]
  · simp [hshape, hauthor, freshRow]

theorem mem_taken {id : String} : id ∈ taken rt sid db ↔
    ∃ r ∈ (uniformT rt).rows db, r.sessionId = sid ∧ r.clientId = id := by
  simp [taken, and_assoc]

theorem uniform_slots (r : UniformPgRow) : slots (Row.uniform rt r) =
    [.pk (.uniform rt r.id), .uniq (.uniformClient rt r.sessionId r.clientId)] := rfl

theorem uniform_of_uniq {e : Row} {id : String}
    (h : (Lockable.uniq (.uniformClient rt sid id) : Lockable Key Uniq) ∈ slots e) : id ∈ taken rt sid [e] := by
  have hu : Uniq.uniformClient rt sid id ∈ uniques e := by simpa [slots] using h
  cases e with
  | uniform rt' r =>
    obtain ⟨rfl, rfl, rfl⟩ := Uniq.uniformClient.inj (List.mem_singleton.1 hu)
    exact mem_taken.2 ⟨r, by simp [Table.rows, uniformT], rfl, rfl⟩
  | participant p => cases List.mem_singleton.1 hu
  | chunk c => cases List.mem_singleton.1 hu
  | _ => cases hu

theorem taken_mono {db' : Db} (h : ∀ r ∈ db, r ∈ db') {id : String} (hid : id ∈ taken rt sid db) :
    id ∈ taken rt sid db' := by
  obtain ⟨r, hr, hs, hid⟩ := mem_taken.1 hid
  exact mem_taken.2 ⟨r, (uniformT rt).mem_rows.2 (h _ ((uniformT rt).mem_rows.1 hr)), hs, hid⟩

theorem taken_append (db db' : Db) : taken rt sid (db ++ db') = taken rt sid db ++ taken rt sid db' := by
  simp [taken]

/-- No id of a session is there twice. -/
theorem taken_nodup (h : Intact db) : (taken rt sid db).Nodup := by
  have hrows : ((uniformT rt).rows db).Pairwise fun r r' => ∀ l ∈ slots (Row.uniform rt r), l ∉ slots (Row.uniform rt r') :=
    List.pairwise_filterMap.2 (h.single.imp fun {x y} hxy r hr r' hr' => by
      obtain rfl := (uniformT rt).get_eq.1 hr
      obtain rfl := (uniformT rt).get_eq.1 hr'
      exact hxy)
  rw [taken, List.Nodup, List.pairwise_map]
  refine (hrows.filter _).imp_of_mem fun {r r'} hr hr' hne hid => ?_
  have hs : r.sessionId = sid := by simpa using (List.mem_filter.1 hr).2
  have hs' : r'.sessionId = sid := by simpa using (List.mem_filter.1 hr').2
  refine hne (.uniq (.uniformClient rt sid r.clientId)) ?_ ?_
  · rw [uniform_slots, hs]; simp
  · rw [uniform_slots, hs', hid]; simp

/-- The index entries of the row of a new id are free. -/
theorem fresh_slots {i : CreateInput} {etag : ETag} {e : Env} {rows : Db} (hid : i.clientId ∉ taken rt sid rows)
    (hkey : ¬Present (Key.uniform rt (e.uuid 0)) rows) :
    ∀ l ∈ slots (Row.uniform rt (freshRow rt sid svc i etag e)), ∀ x ∈ rows, l ∉ slots x := by
  intro l hl x hx hlx
  rcases List.mem_cons.1 hl with rfl | hl
  · exact hkey ⟨x, hx, slots_key hlx⟩
  · obtain rfl := List.mem_singleton.1 hl
    exact hid (taken_mono (by simpa using hx) (uniform_of_uniq hlx))

theorem fresh_check {i : CreateInput} {etag : ETag} {e : Env} (hstorable : Storable i) :
    check (Row.uniform rt (freshRow rt sid svc i etag e)) = true := by
  show (i.authorUserPseudoId.map (·.raw)).all isValidPseudoId = true
  rw [Option.all_map]
  exact hstorable

theorem insertRow_run {i : CreateInput} {etag : ETag} {e : Env} {snap alive rows : Db}
    (hs : Present (Key.session sid) rows) (hstorable : Storable i) (hid : i.clientId ∉ taken rt sid rows)
    (hkey : ¬Present (Key.uniform rt (e.uuid 0)) rows) : ((insertRowSql rt sid svc i etag).run e snap alive rows).result =
      .ok ([.uniform rt (freshRow rt sid svc i etag e)], [.insert (.uniform rt (freshRow rt sid svc i etag e))]) := by
  refine insert_run (T := uniformT rt) rfl (fresh_check hstorable) (fresh_slots hid hkey) fun k hk => ?_
  rw [List.mem_singleton.1 hk]
  exact hs

/-- A row of a new id enters. -/
theorem enters {i : CreateInput} {etag : ETag} {e : Env} {rows : Db} (hf : e.fails = false)
    (hs : Present (Key.session sid) rows) (hstorable : Storable i) (hid : i.clientId ∉ taken rt sid rows)
    (hkey : ¬Present (Key.uniform rt (e.uuid 0)) rows) : answer (insertRowSql rt sid svc i etag) b e rows =
      .ok ([.uniform rt (freshRow rt sid svc i etag { e with now := b.now })],
        [.insert (.uniform rt (freshRow rt sid svc i etag { e with now := b.now }))]) := by
  rw [answer, if_neg (by simp [hf])]
  exact insertRow_run hs hstorable hid hkey

/-- A row that enters is of a new id. -/
theorem entered {i : CreateInput} {etag : ETag} {e : Env} {rows out : Db} {ws : List (Write Row Key)}
    (h : answer (insertRowSql rt sid svc i etag) b e rows = .ok (out, ws)) : i.clientId ∉ taken rt sid rows ∧
      out = [.uniform rt (freshRow rt sid svc i etag { e with now := b.now })] ∧
      ws = [.insert (.uniform rt (freshRow rt sid svc i etag { e with now := b.now }))] := by
  obtain ⟨t, ht, -, hc, -, rfl, rfl⟩ := insert_ok (answer_ok h).2
  obtain rfl := Except.ok.inj ht
  refine ⟨fun hid => ?_, rfl, rfl⟩
  obtain ⟨r, hr, hs, hid⟩ := mem_taken.1 hid
  refine clash_none (l := .uniq (.uniformClient rt sid i.clientId)) hc ?_ ((uniformT rt).mem_rows.1 hr) ?_
  · show _ ∈ slots (Row.uniform rt _)
    rw [uniform_slots]; simp [freshRow]
  · show _ ∈ slots (Row.uniform rt r)
    rw [uniform_slots, hs, hid]; simp

/-- New distinct ids enter one after another. -/
theorem rows_enter {β : Type} {Q : Except AppError β → Moment → Prop} :
    ∀ {xs : List CreateInput} {f : List UniformRow → Handler β} {n : Nat} {vs : List (Write Row Key)}, Present (Key.session sid) (applyAll vs db) →
    (∀ i ∈ xs, Storable i ∧ Readable rt i ∧ i.clientId ∉ taken rt sid (applyAll vs db)) → (xs.map (·.clientId)).Nodup →
    (∀ n, (env n).fails = false) →
    Draws (applyAll vs db) (fun k => Key.uniform rt ((env (n + 2 * k + 1)).uuid 0)) xs.length →
    (∀ rows outs vs', List.Forall₂ (Built rt sid svc) xs rows →
      List.Forall₂ (fun row out => rowFromPg row = .ok out) rows outs →
      applyAll vs' db = applyAll vs db ++ rows.map (Row.uniform rt) →
      Ends env (n + 2 * xs.length) ⟨some ⟨b, vs'⟩, db, w⟩ (f outs) Q) →
    Ends env n ⟨some ⟨b, vs⟩, db, w⟩ (Uniform.insertRows rt sid svc xs >>= f) Q := by
  intro xs
  induction xs with
  | nil =>
    intro f n vs _ _ _ _ _ hf
    exact hf [] [] vs .nil .nil (by simp)
  | cons i xs ih =>
    intro f n vs hs hxs hnodup hworks hdraws hf
    obtain ⟨hi, hnodup⟩ := List.nodup_cons.1 hnodup
    obtain ⟨hstorable, hreadable, hnew⟩ := hxs i (by simp)
    have hreads : Reads (freshRow rt sid svc i (env n).etag { env (n + 1) with now := b.now }) :=
      (reads_fresh hstorable).2 hreadable
    obtain ⟨out, hout⟩ := hreads
    have hans : answer (insertRowSql rt sid svc i (env n).etag) b (env (n + 1)) (applyAll vs db) = _ :=
      enters (hworks (n + 1)) hs hstorable hnew (hdraws.new 0 (by simp))
    rw [Uniform.insertRows]
    simp only [bind_assoc]
    refine ends_outer.2 ?_
    rw [insertRowInTx]
    simp only [bind_assoc, pure_bind]
    refine Ends.fetchedOne_tx hans ((uniformT rt).head_put _) (Ends.ofOk hout ?_)
    generalize hrow : freshRow rt sid svc i (env n).etag { env (n + 1) with now := b.now } = row at *
    have hdb' : applyAll (vs ++ [.insert (.uniform rt row)]) db = applyAll vs db ++ [.uniform rt row] := by
      rw [applyAll_append]; rfl
    have htaken : ∀ {id : String}, id ∈ taken rt sid (applyAll vs db ++ [.uniform rt row]) →
        id ∈ taken rt sid (applyAll vs db) ∨ id = i.clientId := by
      intro id hid
      rw [taken_append, List.mem_append] at hid
      refine hid.imp_right fun hid => ?_
      obtain ⟨r, hr, -, rfl⟩ := mem_taken.1 hid
      have hmem : Row.uniform rt r = Row.uniform rt row := List.mem_singleton.1 ((uniformT rt).mem_rows.1 hr)
      rw [(uniformT rt).put_inj hmem, ← hrow]; rfl
    refine ih (n := n + 2) ?_ (fun j hj => ?_) hnodup hworks ?_ fun rows outs vs' hbuilt houts hvs' => ?_
    · rw [hdb']
      obtain ⟨x, hx, hk⟩ := hs
      exact ⟨x, List.mem_append_left _ hx, hk⟩
    · obtain ⟨hstor, hread, hno⟩ := hxs j (List.mem_cons_of_mem _ hj)
      refine ⟨hstor, hread, fun hid => ?_⟩
      rw [hdb'] at hid
      rcases htaken hid with hid | hid
      · exact hno hid
      · exact hi (List.mem_map.2 ⟨j, hj, hid⟩)
    · rw [hdb']
      have htail : Draws (applyAll vs db ++ [.uniform rt row])
          (fun k => Key.uniform rt ((env (n + 2 * (k + 1) + 1)).uuid 0)) xs.length := by
        refine Draws.tail (k := fun k => Key.uniform rt ((env (n + 2 * k + 1)).uuid 0)) hdraws ?_
        rintro m ⟨x, hx, hk⟩
        rcases List.mem_append.1 hx with hx | hx
        · exact .inl ⟨x, hx, hk⟩
        · rw [List.mem_singleton.1 hx] at hk
          refine .inr (hk.symm.trans ?_)
          rw [← hrow]; rfl
      have hsame : (fun k => Key.uniform rt ((env (n + 2 + 2 * k + 1)).uuid 0)) =
          fun k => Key.uniform rt ((env (n + 2 * (k + 1) + 1)).uuid 0) := by
        funext k
        rw [show n + 2 + 2 * k + 1 = n + 2 * (k + 1) + 1 by omega]
      rw [hsame]
      exact htail
    · have hend := hf (row :: rows) (out :: outs) vs' (.cons (hrow ▸ built_fresh i _ _) hbuilt) (.cons hout houts)
        (by rw [hvs', hdb']; simp)
      rw [show n + 2 * (i :: xs).length = n + 2 + 2 * xs.length by simp; omega] at hend
      exact hend

/-- The loop fails unless its ids are new, distinct and read back. -/
theorem rows_entered {β : Type} {Q : Except AppError β → Moment → Prop} (herr : ∀ e s, Q (.error e) s) :
    ∀ {xs : List CreateInput} {f : List UniformRow → Handler β} {n : Nat} {vs : List (Write Row Key)}, (∀ i ∈ xs, Storable i) →
    ((∀ i ∈ xs, Readable rt i ∧ i.clientId ∉ taken rt sid (applyAll vs db)) → (xs.map (·.clientId)).Nodup →
      ∀ outs m vs', Ends env m ⟨some ⟨b, vs'⟩, db, w⟩ (f outs) Q) →
    Ends env n ⟨some ⟨b, vs⟩, db, w⟩ (Uniform.insertRows rt sid svc xs >>= f) Q := by
  intro xs
  induction xs with
  | nil =>
    intro f n vs _ hf
    exact hf (by simp) .nil [] n vs
  | cons i xs ih =>
    intro f n vs hstorable hf
    rw [Uniform.insertRows]
    simp only [bind_assoc]
    refine ends_outer.2 ?_
    rw [insertRowInTx]
    simp only [bind_assoc, pure_bind]
    refine Ends.fetchOne_tx (fun _ _ => herr _ _) (fun _ _ _ _ => herr _ _) fun out ws row hans hrow => ?_
    obtain ⟨hnew, rfl, rfl⟩ := entered hans
    obtain rfl := Option.some.inj ((((uniformT rt).head_put _).symm.trans hrow))
    refine Ends.ofResult (fun _ _ => herr _ _) fun out hout => ?_
    refine ih (fun j hj => hstorable j (List.mem_cons_of_mem _ hj)) fun hxs hnodup outs m vs' => ?_
    have hreadable : Readable rt i := (reads_fresh (hstorable i (by simp))).1 ⟨out, hout⟩
    have hdb' : ∀ {id : String}, id ∈ taken rt sid (applyAll vs db) ∨ id = i.clientId →
        id ∈ taken rt sid (applyAll (vs ++ [.insert (.uniform rt (freshRow rt sid svc i (env n).etag
          { env (n + 1) with now := b.now }))]) db) := by
      intro id hid
      rw [applyAll_append]
      show id ∈ taken rt sid (applyAll vs db ++ _)
      rw [taken_append, List.mem_append]
      refine hid.imp_right ?_
      rintro rfl
      exact mem_taken.2 ⟨_, (uniformT rt).mem_rows.2 (List.mem_singleton.2 rfl), rfl, rfl⟩
    refine hf (fun j hj => ?_) (List.nodup_cons.2 ⟨fun hi => ?_, hnodup⟩) (out :: outs) m vs'
    · rcases List.mem_cons.1 hj with rfl | hj
      · exact ⟨hreadable, hnew⟩
      · exact ⟨(hxs j hj).1, fun hid => (hxs j hj).2 (hdb' (.inl hid))⟩
    · obtain ⟨j, hj, hji⟩ := List.mem_map.1 hi
      exact (hxs j hj).2 (hdb' (.inr hji))

/-! ## The batch -/

/-- The ids the lookup finds. -/
def found (rt : ResourceTable) (sid : Uuid) (inputs : List CreateInput) (db : Db) : List String :=
  (((uniformT rt).rows db).filter fun r => r.sessionId = sid && (inputs.map (·.clientId)).contains r.clientId).map (·.clientId)

theorem mem_found {inputs : List CreateInput} {id : String} :
    id ∈ found rt sid inputs db ↔ id ∈ inputs.map (·.clientId) ∧ id ∈ taken rt sid db := by
  rw [found, mem_taken, List.mem_map]
  simp only [List.mem_filter, Bool.and_eq_true, decide_eq_true_eq, List.contains_iff_mem]
  constructor
  · rintro ⟨r, ⟨hr, hs, hid⟩, rfl⟩
    exact ⟨hid, r, hr, hs, rfl⟩
  · rintro ⟨hid, r, hr, hs, rfl⟩
    exact ⟨r, ⟨hr, hs, hid⟩, rfl⟩

theorem newInputs_eq (inputs : List CreateInput) :
    inputs.filter (fun i => !(found rt sid inputs db).contains i.clientId) = newInputs rt sid db inputs := by
  refine List.filter_congr fun i hi => ?_
  have hsame : i.clientId ∈ found rt sid inputs db ↔ i.clientId ∈ taken rt sid db := by
    rw [mem_found]
    exact and_iff_right (List.mem_map.2 ⟨i, hi, rfl⟩)
  rw [Bool.eq_iff_iff]
  simpa using not_congr hsame

/-- The batch, up to its loop. -/
theorem bulk_begins {inputs : List CreateInput} {Q : Except AppError BulkResult → Moment → Prop}
    (hvalid : validateInputs rt inputs = .ok ()) (hworks : ∀ n, (env n).fails = false)
    (hempty : inputs = [] → Q (.ok { inserted := [], deduplicatedClientIds := [] }) ⟨none, db, w⟩)
    (hloop : Ends env 2 ⟨some ⟨env 0, []⟩, db, w⟩ (Uniform.insertRows rt sid svc (newInputs rt sid db inputs) >>= fun outs =>
      commit >>= fun _ => pure { inserted := outs, deduplicatedClientIds := found rt sid inputs db }) Q) :
    Ends env 0 ⟨none, db, w⟩ (bulkInsert rt sid svc inputs) Q := by
  rw [bulkInsert]
  cases hinputs : inputs.isEmpty with
  | true => exact hempty (List.isEmpty_iff.1 hinputs)
  | false =>
    refine Ends.ofOk hvalid (Ends.begun (hworks 0) (Ends.selectAll_tx (fun hf => ?_) fun _ => ?_))
    · rw [hworks 1] at hf; cases hf
    · rw [applyAll_nil]
      show Ends env 2 _ (Uniform.insertRows rt sid svc (inputs.filter fun i => !(found rt sid inputs db).contains i.clientId) >>= _) Q
      rw [newInputs_eq]
      exact hloop

/-- A batch of ids that are all there enters nothing. -/
theorem bulk_again {inputs : List CreateInput} (hvalid : validateInputs rt inputs = .ok ())
    (hworks : ∀ n, (env n).fails = false) (hall : ∀ i ∈ inputs, i.clientId ∈ taken rt sid db) :
    Ends env 0 ⟨none, db, w⟩ (bulkInsert rt sid svc inputs) fun a s => ∃ r, a = .ok r ∧ r.inserted = [] ∧ s.db = db ∧
      ∀ id, id ∈ r.deduplicatedClientIds ↔ id ∈ inputs.map (·.clientId) := by
  have hnone : newInputs rt sid db inputs = [] := List.filter_eq_nil_iff.2 fun i hi => by simpa using hall i hi
  refine bulk_begins hvalid hworks ?_ ?_
  · rintro rfl
    exact ⟨_, rfl, rfl, rfl, by simp⟩
  · rw [hnone]
    refine Ends.committed (hworks 2) ⟨_, rfl, rfl, rfl, fun id => ?_⟩
    rw [mem_found]
    refine and_iff_left_of_imp fun hid => ?_
    obtain ⟨i, hi, rfl⟩ := List.mem_map.1 hid
    exact hall i hi

theorem taken_built {xs : List CreateInput} {rows : List UniformPgRow} (h : List.Forall₂ (Built rt sid svc) xs rows) :
    taken rt sid (rows.map (Row.uniform rt)) = xs.map (·.clientId) := by
  have hrows : (uniformT rt).rows (rows.map (Row.uniform rt)) = rows := (uniformT rt).rows_map_put rows
  rw [taken, hrows]
  induction h with
  | nil => rfl
  | cons hb _ ih =>
    obtain ⟨id, etag, now, rfl⟩ := hb
    rw [List.filter_cons_of_pos (by simp), List.map_cons, List.map_cons, ih ((uniformT rt).rows_map_put _)]

end

/-- A bulk insert is a first-wins insert exactly when no new id is named
twice and every new speaker reads back. -/
theorem first_wins_iff (rt : ResourceTable) (sid : Uuid) (svc : String) (inputs : List CreateInput) (db : Db) (w : World)
    (env env' : Nat → Env) (hs : Present (Key.session sid) db) (hvalid : validateInputs rt inputs = .ok ())
    (hstorable : ∀ i ∈ inputs, Storable i) (hworks : ∀ n, (env n).fails = false) (hworks' : ∀ n, (env' n).fails = false)
    (hdraws : Draws db (fun k => Key.uniform rt ((env (2 + 2 * k + 1)).uuid 0)) (newInputs rt sid db inputs).length) :
    FirstWins rt sid svc inputs db w env env' ↔
      ((newInputs rt sid db inputs).map (·.clientId)).Nodup ∧ ∀ i ∈ newInputs rt sid db inputs, Readable rt i := by
  have hnew : ∀ i ∈ newInputs rt sid db inputs, i ∈ inputs ∧ i.clientId ∉ taken rt sid db := fun i hi => by
    simpa [newInputs] using hi
  constructor
  · intro hwins
    by_contra hno
    have hrefused : Ends env 0 ⟨none, db, w⟩ (bulkInsert rt sid svc inputs) fun a _ => ∃ e, a = .error e := by
      refine bulk_begins hvalid hworks ?_ (rows_entered (fun _ _ => ⟨_, rfl⟩) (fun i hi => hstorable i (hnew i hi).1) ?_)
      · rintro rfl
        exact absurd ⟨.nil, by simp [newInputs]⟩ hno
      · exact fun hxs hnodup => absurd ⟨hnodup, fun i hi => (hxs i hi).1⟩ hno
    obtain ⟨r, hok, -⟩ := hwins
    obtain ⟨e, herr⟩ := hrefused
    rw [hok] at herr
    cases herr
  · rintro ⟨hnodup, hreadable⟩
    refine bulk_begins hvalid hworks ?_ ?_
    · rintro rfl
      refine ⟨_, rfl, ⟨⟨[], by simp, .nil, .nil⟩, by simp⟩, ?_⟩
      exact bulk_again hvalid hworks' (by simp)
    · refine rows_enter hs (fun i hi => ⟨hstorable i (hnew i hi).1, hreadable i hi, (hnew i hi).2⟩) hnodup hworks hdraws
        fun rows outs vs' hbuilt houts hvs' => Ends.committed (hworks _) ?_
      rw [hvs', applyAll_nil]
      refine ⟨_, rfl, ⟨⟨rows, rfl, ?_, houts⟩, fun id => mem_found⟩, bulk_again hvalid hworks' fun i hi => ?_⟩
      · rw [firsts_eq hnodup]
        exact hbuilt
      · show i.clientId ∈ taken rt sid (db ++ rows.map (Row.uniform rt))
        rw [taken_append, taken_built hbuilt, List.mem_append]
        by_cases hi' : i.clientId ∈ taken rt sid db
        · exact .inl hi'
        · exact .inr (List.mem_map.2 ⟨i, List.mem_filter.2 ⟨hi, by simpa using hi'⟩, rfl⟩)

def sampleInput (clientId : String) : CreateInput :=
  { clientId := clientId, startMs := 0, endMs := 1, text := some "hello", pseudoId := some ⟨Sample.speaker⟩ }

/-- A session with the segment "a". -/
def sampleDb : Db :=
  [.session Sample.session,
    .uniform .segments (freshRow .segments Sample.sessionId "bot" (sampleInput "a") ⟨"t"⟩ (Sample.env 0))]

/-- One id that is there, and two new ones. -/
theorem first_wins_sample : FirstWins .segments Sample.sessionId "bot" [sampleInput "a", sampleInput "b", sampleInput "c"]
    sampleDb Sample.world Sample.env Sample.env := by
  have hnew : (newInputs .segments Sample.sessionId sampleDb [sampleInput "a", sampleInput "b", sampleInput "c"]).map
      (·.clientId) = ["b", "c"] := by decide +kernel
  have hdraws : Draws sampleDb (fun k => Key.uniform .segments ((Sample.env (2 + 2 * k + 1)).uuid 0)) 2 := by
    refine ⟨by decide +kernel, fun n m hnm hm => ?_⟩
    obtain ⟨rfl, rfl⟩ : n = 0 ∧ m = 1 := by omega
    decide
  have hinput : ∀ i ∈ [sampleInput "a", sampleInput "b", sampleInput "c"], ∃ id, i = sampleInput id := by simp
  have hspeaker : isValidPseudoId Sample.speaker = true := by decide +kernel
  refine (first_wins_iff .segments Sample.sessionId "bot" [sampleInput "a", sampleInput "b", sampleInput "c"] sampleDb
    Sample.world Sample.env Sample.env (by decide +kernel) (by decide) (fun i hi => ?_) (fun _ => rfl) (fun _ => rfl) ?_).2
    ⟨?_, fun i hi _ => ?_⟩
  · obtain ⟨id, rfl⟩ := hinput i hi
    rfl
  · rw [← List.length_map (fun i : CreateInput => i.clientId), hnew]
    exact hdraws
  · rw [hnew]
    decide
  · obtain ⟨id, rfl⟩ := hinput i (List.mem_filter.1 hi).1
    exact hspeaker

/-- A new id named twice: the batch is refused. -/
theorem repeats_refused : (solo Sample.env 0 ⟨none, sampleDb, Sample.world⟩
      (bulkInsert .segments Sample.sessionId "bot" [sampleInput "b", sampleInput "b"]).run).1.isOk = false ∧
    validateInputs .segments [sampleInput "b", sampleInput "b"] = .ok () ∧
    ¬FirstWins .segments Sample.sessionId "bot" [sampleInput "b", sampleInput "b"] sampleDb Sample.world Sample.env
      Sample.env := by
  have hrefused : (solo Sample.env 0 ⟨none, sampleDb, Sample.world⟩
      (bulkInsert .segments Sample.sessionId "bot" [sampleInput "b", sampleInput "b"]).run).1.isOk = false := by decide +kernel
  refine ⟨hrefused, by decide, fun hwins => ?_⟩
  obtain ⟨r, hok, -⟩ := hwins
  rw [hok] at hrefused
  cases hrefused

end DataApi.BulkDedup
