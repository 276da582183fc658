/-
`list_by_session`: one template for three tables, which names a column that
only one of them has. Where the server takes the statement, the answer is the
rows asked for, in order.
-/
import DataApi.Outcomes
import DataApi.Proofs.Pseudonyms

namespace DataApi.Listing

open Relational ReadCommitted Resumption Handler DataApi.Uniform Pseudonyms

/-! ## Reading rows one by one -/

/-- Rows that all read are all read, in their order. -/
theorem mapM_ok {α β ε : Type} {f : α → Except ε β} {R : α → α → Prop} {S : β → β → Prop}
    (hRS : ∀ x x' y y', R x x' → f x = .ok y → f x' = .ok y' → S y y') {xs : List α} (h : ∀ x ∈ xs, ∃ y, f x = .ok y)
    (hp : xs.Pairwise R) : ∃ ys, xs.mapM f = .ok ys ∧ (∀ y, y ∈ ys ↔ ∃ x ∈ xs, f x = .ok y) ∧ ys.Pairwise S := by
  induction xs with
  | nil => exact ⟨[], rfl, by simp, List.Pairwise.nil⟩
  | cons x xs ih =>
    obtain ⟨hx, hp⟩ := List.pairwise_cons.1 hp
    obtain ⟨y, hy⟩ := h x (by simp)
    obtain ⟨ys, hys, hmem, hpair⟩ := ih (fun x' hx' => h x' (List.mem_cons_of_mem _ hx')) hp
    refine ⟨y :: ys, by rw [List.mapM_cons, hy, hys]; rfl, fun z => ?_, List.pairwise_cons.2 ⟨fun z hz => ?_, hpair⟩⟩
    · simp only [List.mem_cons, hmem, exists_eq_or_imp, hy, Except.ok.injEq]
      exact or_congr_left ⟨Eq.symm, Eq.symm⟩
    · obtain ⟨x', hx', hz⟩ := (hmem z).1 hz
      exact hRS _ _ _ _ (hx x' hx') hy hz

theorem rowFromPg_order {r : UniformPgRow} {u : UniformRow} (h : rowFromPg r = .ok u) :
    u.id = r.id ∧ u.startMs = r.startMs := by
  obtain ⟨p, -, h⟩ := bind_ok h
  obtain ⟨a, -, h⟩ := bind_ok h
  obtain rfl := Except.ok.inj h
  exact ⟨rfl, rfl⟩

/-! ## The order -/

instance : Std.Total InOrder := ⟨fun r r' => by
  rcases lt_trichotomy r.startMs r'.startMs with h | h | h
  · exact .inl (.inl h)
  · rcases BitVec.le_total r.id r'.id with hid | hid
    · exact .inl (.inr ⟨h, hid⟩)
    · exact .inr (.inr ⟨h.symm, hid⟩)
  · exact .inr (.inl h)⟩

instance : IsTrans UniformPgRow InOrder := ⟨fun r r' r'' h h' => by
  rcases h with h | ⟨h, hid⟩ <;> rcases h' with h' | ⟨h', hid'⟩
  · exact .inl (by omega)
  · exact .inl (by omega)
  · exact .inl (by omega)
  · exact .inr ⟨by omega, BitVec.le_trans hid hid'⟩⟩

/-- Rows of one table, by their ids, once each. -/
theorem ids_nodup {rt : ResourceTable} {db : Db} (h : KeysUnique db) : (((uniformT rt).rows db).map (·.id)).Nodup := by
  have hkeys := (uniformT rt).rows_keys_nodup h
  have hmap : ((uniformT rt).rows db).map (fun r => key ((uniformT rt).put r)) =
      (((uniformT rt).rows db).map (·.id)).map (Key.uniform rt) := by
    rw [List.map_map]; rfl
  rw [hmap] at hkeys
  exact hkeys.of_map

/-- Rows sorted by time and id, no id twice, are strictly in order. -/
theorem sorted_strictly {rs : List UniformPgRow} (h : (rs.map (·.id)).Nodup) :
    (rs.insertionSort InOrder).Pairwise fun r r' => r.startMs < r'.startMs ∨ r.startMs = r'.startMs ∧ r.id < r'.id := by
  have hsorted := List.pairwise_insertionSort InOrder rs
  have hids : ((rs.insertionSort InOrder).map (·.id)).Nodup := ((List.perm_insertionSort InOrder rs).map _).nodup_iff.2 h
  have hne : (rs.insertionSort InOrder).Pairwise fun r r' => r.id ≠ r'.id := List.pairwise_map.1 hids
  refine hsorted.imp₂ (fun r r' hr hne => ?_) hne
  rcases hr with hr | ⟨hr, hid⟩
  · exact .inl hr
  · exact .inr ⟨hr, BitVec.lt_of_le_ne hid hne⟩

/-! ## What a listing answers -/

/-- The rows asked for, each once, ordered by time and id. -/
def Lists (rt : ResourceTable) (db : Db) (sid : Uuid) (pid : Option PseudoId) (since : Option Int)
    (a : Except AppError (List UniformRow)) : Prop :=
  ∃ us, a = .ok us ∧
    us.Pairwise (fun u u' => u.startMs < u'.startMs ∨ u.startMs = u'.startMs ∧ u.id < u'.id) ∧
    ∀ u, u ∈ us ↔ ∃ r, Row.uniform rt r ∈ db ∧ rowFromPg r = .ok u ∧ r.sessionId = sid ∧
      (∀ p ∈ pid, pseudoColumn r.columns = some p.raw) ∧ ∀ t ∈ since, t ≤ r.startMs

/-- The answer of `list_by_session` on the committed rows. -/
def listed (env : Nat → Env) (db : Db) (w : World) (rt : ResourceTable) (sid : Uuid) (pid : Option PseudoId)
    (since : Option Int) : Except AppError (List UniformRow) :=
  (solo env 0 ⟨none, db, w⟩ (listBySession rt sid pid since).run).1

/-- Where the server takes the statement. -/
theorem segments_listed {db : Db} (hkeys : KeysUnique db) (hreads : ∀ r, Row.uniform .segments r ∈ db → EtagHistory.Reads r)
    {env : Nat → Env} (hf : (env 0).fails = false) {w : World} {sid : Uuid} {pid : Option PseudoId} {since : Option Int} :
    Lists .segments db sid pid since (listed env db w .segments sid pid since) := by
  have hends : Ends env 0 ⟨none, db, w⟩ (listBySession .segments sid pid since)
      fun a _ => Lists .segments db sid pid since a := by
    rw [listBySession, show listSql .segments sid pid since = .ok _ from rfl]
    simp only [fetchAll, bind_assoc]
    refine ends_ofDb.2 (ends_pool.2 ?_)
    rw [answer_select hf]
    simp only [pure_bind, (uniformT .segments).rows_filter_is]
    generalize hrs : ((uniformT .segments).rows db).filter _ = rs
    have hmem : ∀ r, r ∈ rs ↔ Row.uniform .segments r ∈ db ∧ r.sessionId = sid ∧
        (∀ p ∈ pid, pseudoColumn r.columns = some p.raw) ∧ ∀ t ∈ since, t ≤ r.startMs := by
      intro r
      rw [← hrs]
      simp [List.mem_filter, uniformT, Option.all_eq_true, and_assoc]
    have hids : (rs.map (·.id)).Nodup := by
      rw [← hrs]
      exact (ids_nodup hkeys).sublist (List.filter_sublist.map _)
    obtain ⟨us, hus, hmemus, hpair⟩ := mapM_ok (f := rowFromPg)
      (S := fun u u' => u.startMs < u'.startMs ∨ u.startMs = u'.startMs ∧ u.id < u'.id)
      (fun r r' u u' hR hu hu' => by
        rw [(rowFromPg_order hu).1, (rowFromPg_order hu).2, (rowFromPg_order hu').1, (rowFromPg_order hu').2]
        exact hR)
      (fun r hr => hreads r ((hmem r).1 ((List.mem_insertionSort InOrder).1 hr)).1) (sorted_strictly hids)
    rw [hus]
    refine ⟨us, rfl, hpair, fun u => (hmemus u).trans (exists_congr fun r => ?_)⟩
    rw [List.mem_insertionSort, hmem]
    tauto
  exact hends

/-- In every state a run reaches from the empty tables, a session's rows are
listed exactly for segments: the server refuses the statement for the
others. -/
theorem lists_iff {ι : Type} [DecidableEq ι] (st : AppState) (reqs : ι → Request) (sv : Sv ι) (hq : sv.Quiescent)
    (hdb : sv.db = []) {c : Clients ι Row Env Io Outcome}
    (h : Run machine (fun _ _ _ => True) (Service.start st reqs sv) c) (env : Nat → Env) (hf : (env 0).fails = false)
    (rt : ResourceTable) (sid : Uuid) (pid : Option PseudoId) (since : Option Int) :
    Lists rt c.shared.db sid pid since (listed env c.shared.db c.shared.world rt sid pid since) ↔ rt = .segments := by
  have hkeys : KeysUnique c.shared.db := (Run.orderly (.start hq) h).unique
  have hstart : ∀ r ∈ sv.db, Pseudonymous r := by
    intro r hr
    rw [hdb] at hr
    cases hr
  have hrows : ∀ r ∈ c.shared.db, Pseudonymous r :=
    run_pseudonymous hstart h
  constructor
  · rintro ⟨us, hus, -⟩
    by_contra hrt
    have herr : ∃ err, listed env c.shared.db c.shared.world rt sid pid since = .error err := by
      cases rt with
      | segments => exact absurd rfl hrt
      | beats => exact ⟨_, rfl⟩
      | scenes => exact ⟨_, rfl⟩
    obtain ⟨err, herr⟩ := herr
    rw [hus] at herr
    cases herr
  · rintro rfl
    exact segments_listed hkeys (fun r hr => reads_pseudonymous.2 (hrows _ hr)) hf

/-- A session is created, and a row is filed under it. -/
def sampleRequests (rt : ResourceTable) (inp : CreateInput) : Fin 2 → Request
  | 0 => .createSession "bot" Sample.createInput
  | 1 => .bulkCreate rt "bot" Sample.sessionId
      { segments := some [inp], beats := some [inp], scenes := some [inp] }

def sampleInput : CreateInput := { clientId := "a", startMs := 0, endMs := 1, text := some "", title := some "" }

/-- A state that a run from the empty tables reaches, with one row in the
table. -/
theorem sample_reached (rt : ResourceTable) : ∃ c : Clients (Fin 2) Row Env Io Outcome,
    Run machine (fun _ _ _ => True) (Service.start Sample.state (sampleRequests rt sampleInput) (Sample.server [])) c ∧
      ∃ r, Row.uniform rt r ∈ c.shared.db ∧ r.sessionId = Sample.sessionId := by
  have hplay : ((Service.start Sample.state (sampleRequests rt sampleInput) (Sample.server [])).play machine
      (Sample.moves 0 [(0, 5), (1, 13)])).map (fun c => ((uniformT rt).rows c.shared.db).map (·.sessionId)) =
      some [Sample.sessionId] := by cases rt <;> decide +kernel
  obtain ⟨c, hc, hrows⟩ := Option.map_eq_some_iff.1 hplay
  have hmem : Sample.sessionId ∈ ((uniformT rt).rows c.shared.db).map (·.sessionId) := by
    rw [hrows]; simp
  obtain ⟨r, hr, hsid⟩ := List.mem_map.1 hmem
  exact ⟨c, Run.play (Config.guarded_of_all (fun _ _ _ => trivial) _) .nil hc, r, (uniformT rt).mem_rows.1 hr, hsid⟩

theorem lists_sample : ∃ db w, (∃ r, Row.uniform .segments r ∈ db ∧ r.sessionId = Sample.sessionId) ∧
    Lists .segments db Sample.sessionId none none (listed Sample.env db w .segments Sample.sessionId none none) := by
  obtain ⟨c, hrun, hr⟩ := sample_reached .segments
  exact ⟨c.shared.db, c.shared.world, hr, (lists_iff Sample.state (sampleRequests .segments sampleInput) (Sample.server [])
    ⟨by decide, rfl, rfl⟩ rfl hrun Sample.env rfl .segments Sample.sessionId none none).2 rfl⟩

/-- A beat is stored under the session, and listing the session's beats is a
database error. -/
theorem beats_not_listed : ∃ c : Clients (Fin 2) Row Env Io Outcome,
    Run machine (fun _ _ _ => True) (Service.start Sample.state (sampleRequests .beats sampleInput) (Sample.server [])) c ∧
    (∃ r, Row.uniform .beats r ∈ c.shared.db ∧ r.sessionId = Sample.sessionId) ∧
    listed Sample.env c.shared.db c.shared.world .beats Sample.sessionId none none = .error (.database .failure) ∧
    ¬Lists .beats c.shared.db Sample.sessionId none none
      (listed Sample.env c.shared.db c.shared.world .beats Sample.sessionId none none) := by
  obtain ⟨c, hrun, hr⟩ := sample_reached .beats
  have herr : listed Sample.env c.shared.db c.shared.world .beats Sample.sessionId none none =
      .error (.database .failure) := rfl
  refine ⟨c, hrun, hr, herr, ?_⟩
  rintro ⟨us, hus, -⟩
  rw [herr] at hus
  cases hus

end DataApi.Listing
