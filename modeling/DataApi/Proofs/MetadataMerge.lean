/-
Concurrent metadata merges. A merge that finds the row locks it, and what it
writes is what it read, overlaid by its patch. A merge that finds no row has
nothing to lock: its upsert may meet a row committed since, and replaces it.
The merges of a session lose no keys as long as such a row has only keys the
patch has too (`Overwrites`); otherwise they can, and do.
-/
import DataApi.Db.Writes
import DataApi.Rules

namespace DataApi.MetadataMerge

open Relational ReadCommitted Resumption Handler

/-! ## Overlays -/

/-- The top-level keys of an object, as a partial function. -/
abbrev Fields := String → Option Json

/-- `m` with the keys of `p` on top. -/
def overlay (m : Fields) (p : List (String × Json)) : Fields := fun k => (Json.get p k).or (m k)

theorem get_append (fs : List (String × Json)) (f : String × Json) (k : String) :
    Json.get (fs ++ [f]) k = if f.1 = k then some f.2 else Json.get fs k := by
  simp [Json.get]

theorem get_filter_ne (fs : List (String × Json)) {a k : String} (h : k ≠ a) :
    Json.get (fs.filter fun x => x.1 ≠ a) k = Json.get fs k := by
  induction fs using List.reverseRecOn with
  | nil => rfl
  | append_singleton fs f ih =>
    rw [List.filter_append, get_append]
    by_cases hf : f.1 = a
    · have hk : f.1 ≠ k := fun hk => h (hk.symm.trans hf)
      rw [List.filter_cons_of_neg (by simpa using hf), List.filter_nil, List.append_nil, if_neg hk]
      exact ih
    · rw [List.filter_cons_of_pos (by simpa using hf), List.filter_nil, get_append]
      rw [ih]

theorem get_insert (fs : List (String × Json)) (f : String × Json) (k : String) :
    Json.get (Json.insert fs f) k = if f.1 = k then some f.2 else Json.get fs k := by
  rw [Json.insert, get_append]
  by_cases hk : f.1 = k
  · rw [if_pos hk, if_pos hk]
  · rw [if_neg hk, if_neg hk, get_filter_ne _ (Ne.symm hk)]

/-- What `merge_shallow` does to two objects is to overlay them. -/
theorem get_merge (base p : List (String × Json)) : Json.get (p.foldl Json.insert base) = overlay (Json.get base) p := by
  funext k
  induction p using List.reverseRecOn with
  | nil => rfl
  | append_singleton p f ih =>
    rw [List.foldl_append, List.foldl_cons, List.foldl_nil, get_insert, ih, overlay, overlay, get_append]
    by_cases hk : f.1 = k
    · rw [if_pos hk, if_pos hk]; rfl
    · rw [if_neg hk, if_neg hk]

theorem get_mem {fs : List (String × Json)} {k : String} (h : Json.get fs k ≠ none) : k ∈ fs.map Prod.fst := by
  induction fs using List.reverseRecOn with
  | nil => exact absurd rfl h
  | append_singleton fs f ih =>
    rw [get_append] at h
    rw [List.map_append, List.mem_append]
    by_cases hk : f.1 = k
    · exact .inr (by simp [hk])
    · rw [if_neg hk] at h
      exact .inl (ih h)

/-! ## The blob of a session -/

def blobOf (sid : Uuid) (db : Db) : Option Json :=
  ((lookup (.metadata sid) db).bind metadataT.get).map (·.blob)

/-- The keys of the blob; a missing row, like `null`, has none. -/
def fieldsOf : Option Json → Fields
  | some (.obj fs) => Json.get fs
  | _ => fun _ => none

def keysOf : Option Json → List String
  | some (.obj fs) => fs.map Prod.fst
  | _ => []

/-- A missing row or an object. -/
def IsObject : Option Json → Prop
  | none | some (.obj _) => True
  | _ => False

/-- A patch that has every key of the blob leaves nothing of it. -/
theorem overlay_covering {blob : Option Json} {p : List (String × Json)}
    (h : ∀ k ∈ keysOf blob, (Json.get p k).isSome = true) : overlay (fieldsOf blob) p = Json.get p := by
  funext k
  rw [overlay]
  cases hp : Json.get p k with
  | some v => rfl
  | none =>
    rw [Option.none_or]
    by_contra hm
    have hk : k ∈ keysOf blob := by
      match blob, hm with
      | some (.obj fs), hm => exact get_mem hm
    have := h k hk
    rw [hp] at this; cases this

theorem blobOf_eq {sid : Uuid} {db : Db} {m : MetadataBlob} (h : lookup (.metadata sid) db = some (.metadata m)) :
    blobOf sid db = some m.blob := by
  simp [blobOf, h, metadataT]

theorem blobOf_congr {sid : Uuid} {db db' : Db} (h : versions (.metadata sid) db = versions (.metadata sid) db') :
    blobOf sid db = blobOf sid db' := by
  simp only [blobOf, lookup, h]

theorem blobOf_other {sid : Uuid} {ws : List (Write Row Key)} (h : ∀ w ∈ ws, w.key ≠ .metadata sid) (db : Db) :
    blobOf sid (applyAll ws db) = blobOf sid db := blobOf_congr (versions_applyAll_other h db)

/-! ## The upsert -/

theorem metadata_of_key {r : Row} {sid : Uuid} (h : key r = Key.metadata sid) : ∃ m, r = .metadata m := by
  cases r <;> simp only [key, Row.key, reduceCtorEq] at h
  exact ⟨_, rfl⟩

theorem slots_metadata {m : MetadataBlob} {l : Lockable Key Uniq} (h : l ∈ slots (Row.metadata m)) :
    l = .pk (.metadata m.sessionId) := by
  simpa [slots, key, uniques, Row.key, Row.uniques] using h

/-- The upsert leaves the new blob, whether it enters the row or replaces one. -/
theorem upsert_ok {sid : Uuid} {blob : Json} {etag : ETag} {env : Env} {snap alive cur rows : Db} {ws}
    (h : ((Metadata.upsertSql sid blob etag).run env snap alive cur).result = .ok (rows, ws)) :
    ∃ w, ws = [w] ∧ w.key = .metadata sid ∧ blobOf sid (applyAll ws cur) = some blob := by
  obtain ⟨-, ⟨-, rfl, hc, -, -⟩ | ⟨-, -, _, hoc, -⟩ | ⟨a, set, l, x, hoc, hc, -, -, -, rfl, -⟩⟩ :=
    insertRow_cases (insertRows_singleton h)
  · refine ⟨_, rfl, rfl, ?_⟩
    have hnone : lookup (key (Row.metadata (Metadata.freshRow sid blob etag env))) cur = none :=
      lookup_none.2 (clash_slots_none hc)
    exact blobOf_eq (lookup_insert hnone)
  · cases hoc
  · simp only [OnConflict.doUpdate.injEq] at hoc
    obtain ⟨rfl, rfl⟩ := hoc
    obtain ⟨hl, hx, hlx⟩ := clash_some hc
    obtain rfl := slots_metadata (List.mem_filter.1 hl).1
    have hk : key x = Key.metadata sid := pk_mem_slots.1 hlx
    obtain ⟨m, rfl⟩ := metadata_of_key hk
    have hset : (metadataT.setter (Metadata.overwrite blob etag env)).set (Row.metadata m) =
      .metadata (Metadata.overwrite blob etag env m) := metadataT.lift_put _ _
    rw [hset]
    refine ⟨_, rfl, hk, ?_⟩
    obtain ⟨y, hy⟩ := Option.ne_none_iff_exists'.1 (mt lookup_none.1 (fun h => h _ hx hk))
    have hy' : lookup (key (Row.metadata (Metadata.overwrite blob etag env m))) cur = some y := by
      rw [← hy]; exact congrArg (lookup · cur) hk
    have := lookup_update hy'
    exact blobOf_eq (by rw [← hk]; exact this)

/-! ## The protocol of a merge -/

/-- Where a merge stands: it found no row, or locked one with this blob, or
has written, or committed. -/
inductive Stage
  | idle
  | absent
  | held (blob : Json)
  | wrote
  | committed

/-- The object a merge takes as its base. -/
def Base : Stage → List (String × Json) → Prop
  | .absent, base => base = []
  | .held blob, base => Json.get base = fieldsOf (some blob)
  | _, _ => False

def protocol (sid : Uuid) (p : List (String × Json)) : Protocol (@Answer Row Key Uniq Env Io World _ _) Stage where
  may s
    | .begin => s = .idle
    | .query .tx (.forUpdate q) => s = .idle ∧ Stmt.forUpdate q = Metadata.lockSql sid
    | .query .tx (.insert mk) => ∃ base etag, Base s base ∧
        .insert mk = Metadata.upsertSql sid (.obj (p.foldl Json.insert base)) etag
    | .query _ _ => False
    | .commit => s = .wrote
    | .rollback => False
    | .outer _ => True
  next s
    | .query .tx (.forUpdate _), .ok rows, t => ((metadataT.rows rows).head? = none → t = .absent) ∧
        ∀ m, (metadataT.rows rows).head? = some m → t = .held m.blob
    | .query .tx (.insert _), .ok _, t => t = .wrote
    | .commit, .ok _, t => t = .committed
    | .commit, .error _, t => t = .idle
    | _, _, t => t = s

/-- A merge succeeds exactly when it has committed. -/
def Answers (s : Stage) : Except AppError MetadataBlob → Prop
  | .ok _ => s = .committed
  | .error _ => s ≠ .committed

abbrev Follows {β : Type} (sid : Uuid) (p : List (String × Json)) (Q : Stage → Except AppError β → Prop) (s : Stage)
    (h : Handler β) : Prop := Prog.Follows (protocol sid p) Q s h.run

/-- From the base on: one overlay, one upsert, the commit. -/
theorem write_follows {sid : Uuid} {p : List (String × Json)} {s : Stage} (base : Json) (hs : s ≠ .committed)
    (hbase : ∀ fs, (base = .obj fs ∨ base = .null ∧ fs = []) → Base s fs) :
    Follows sid p Answers s (do
      let merged ← ofResult (Metadata.mergeShallow base (.obj p))
      let etag ← newEtag
      let row ← fetchOne .tx metadataT (Metadata.upsertSql sid merged etag)
      commit
      return row) := by
  refine follows_ofResult (fun e _ => hs) fun merged hm => ?_
  have hmerged : ∃ fs, Base s fs ∧ merged = .obj (p.foldl Json.insert fs) := by
    unfold Metadata.mergeShallow at hm
    cases base with
    | obj fs => exact ⟨fs, hbase fs (.inl rfl), (Except.ok.inj hm).symm⟩
    | null => exact ⟨[], hbase [] (.inr ⟨rfl, rfl⟩), (Except.ok.inj hm).symm⟩
    | _ => cases hm
  obtain ⟨fs, hfs, rfl⟩ := hmerged
  refine follows_newEtag trivial fun etag t ht => ?_
  obtain rfl : t = s := ht
  refine follows_fetchOne ⟨fs, etag, hfs, rfl⟩ (fun e t' ht' => ?_) (fun rows t' ht' _ => ?_) fun rows t' row ht' _ => ?_
  · obtain rfl : t' = t := ht'
    exact hs
  · obtain rfl : t' = .wrote := ht'
    simp [Answers]
  · obtain rfl : t' = .wrote := ht'
    refine follows_commit rfl (fun e t' ht' => ?_) fun t' ht' => follows_pure ht'
    obtain rfl : t' = .idle := ht'
    simp [Answers]

theorem shallowMerge_follows (sid : Uuid) (p : List (String × Json)) :
    Follows sid p Answers .idle (Metadata.shallowMerge sid none (.obj p)) := by
  have herr : ∀ (t : Stage) (e : AppError), t = .idle → Answers t (.error e) := by
    rintro t e rfl
    simp [Answers]
  rw [Metadata.shallowMerge]
  refine follows_begin rfl (fun e t ht => herr t _ ht) fun t ht => ?_
  obtain rfl : t = .idle := ht
  refine follows_fetchOptional ⟨rfl, rfl⟩ (fun e t ht => herr t _ ht) fun rows t ht => ?_
  cases hx : (metadataT.rows rows).head? with
  | none =>
    obtain rfl := ht.1 hx
    rw [Metadata.current, bind_assoc]
    refine follows_newEtag trivial fun etag t ht => ?_
    obtain rfl : t = .absent := ht
    refine write_follows (.obj []) (by simp) fun fs hfs => ?_
    rcases hfs with hfs | ⟨hfs, -⟩
    · cases hfs; rfl
    · cases hfs
  | some m =>
    obtain rfl := ht.2 m hx
    refine write_follows m.blob (by simp) fun fs hfs => ?_
    rcases hfs with hfs | ⟨hfs, rfl⟩
    · rw [Base, hfs]; rfl
    · rw [Base, hfs]; rfl

/-! ## What a stage means -/

section
variable {ι : Type} [DecidableEq ι] (sid : ι → Uuid) (p : ι → List (String × Json))

/-- The merge read, FOR UPDATE, that there is no row. -/
def readAbsent (c : Conn) : Bool := c.hist.any fun
  | ⟨.query .tx (.forUpdate _), .ok rows⟩ => (metadataT.rows rows).isEmpty
  | _ => false

def Holds (i : ι) (c : Conn) (sv : Sv ι) : Stage → Prop
  | .idle => commits i sv.log = 0 ∧ c.writes = []
  | .absent => commits i sv.log = 0 ∧ c.writes = [] ∧ readAbsent c = true
  | .held blob => commits i sv.log = 0 ∧ c.writes = [] ∧ (i, (.row (.metadata (sid i)), .update)) ∈ sv.locks ∧
      blobOf (sid i) sv.db = some blob
  | .wrote => commits i sv.log = 0 ∧ (∃ w, w ∈ c.writes ∧ w.key = .metadata (sid i)) ∧
      (∀ w ∈ c.writes, w.key = .metadata (sid i)) ∧
      ∃ fs, blobOf (sid i) (applyAll c.writes sv.db) = some (.obj fs) ∧
        (Json.get fs = overlay (fieldsOf (blobOf (sid i) sv.db)) (p i) ∨
          readAbsent c = true ∧ Json.get fs = Json.get (p i))
  | .committed => commits i sv.log = 1 ∧ c.tx = none

/-- What a merge commits: the patch over what is there, and nothing of any
other session. -/
structure Commits (db : Db) (i : ι) (ws : List (Write Row Key)) : Prop where
  merged : ∃ fs, blobOf (sid i) (applyAll ws db) = some (.obj fs) ∧
    Json.get fs = overlay (fieldsOf (blobOf (sid i) db)) (p i)
  others : ∀ s, s ≠ sid i → blobOf s (applyAll ws db) = blobOf s db

/-- The step is not the commit of a merge that read no row, over a blob with a
key its patch does not have. -/
def covers {α : Type} (c : Clients ι Row Env Io α) (i : ι) : Bool :=
  match (c.threads i).prog with
  | .op .commit _ => !readAbsent (c.threads i).loc ||
      (keysOf (blobOf (sid i) c.shared.db)).all fun k => (Json.get (p i) k).isSome
  | _ => true

variable {sid p} {i j : ι} {conn c' : Conn} {sv sv' : Sv ι} {s : Stage} {e : Env}

omit [DecidableEq ι] in
theorem readAbsent_mono (h : readAbsent conn = true) (hh : ∀ x ∈ conn.hist, x ∈ c'.hist) : readAbsent c' = true := by
  obtain ⟨x, hx, hr⟩ := List.any_eq_true.1 h
  exact List.any_eq_true.2 ⟨x, hh x hx, hr⟩

omit [DecidableEq ι] in
theorem covers_commit {α : Type} {c : Clients ι Row Env Io α} {k} (h : covers sid p c i = true)
    (hp : (c.threads i).prog = .op .commit k) (hr : readAbsent (c.threads i).loc = true) :
    ∀ key ∈ keysOf (blobOf (sid i) c.shared.db), (Json.get (p i) key).isSome = true := by
  rw [covers, hp] at h
  simpa [hr] using h

/-- A move that writes nothing. -/
theorem Holds.same (h : Holds sid p i conn sv s) (htx : c'.tx = conn.tx) (hh : ∀ x ∈ conn.hist, x ∈ c'.hist)
    (hdb : sv'.db = sv.db) (hlog : sv'.log = sv.log) (hlocks : ∀ l ∈ sv.locks, l ∈ sv'.locks) :
    Holds sid p i c' sv' s := by
  have hw : c'.writes = conn.writes := by simp [Client.writes, htx]
  cases s with
  | idle => exact ⟨hlog ▸ h.1, hw ▸ h.2⟩
  | absent => exact ⟨hlog ▸ h.1, hw ▸ h.2.1, readAbsent_mono h.2.2 hh⟩
  | held blob => exact ⟨hlog ▸ h.1, hw ▸ h.2.1, hlocks _ h.2.2.1, hdb ▸ h.2.2.2⟩
  | wrote =>
    obtain ⟨hn, hex, hall, fs, hfs, hfs'⟩ := h
    refine ⟨hlog ▸ hn, hw ▸ hex, hw ▸ hall, fs, by rw [hw, hdb]; exact hfs, ?_⟩
    rw [hdb]
    exact hfs'.imp id fun hr => ⟨readAbsent_mono hr.1 hh, hr.2⟩
  | committed => exact ⟨hlog ▸ h.1, htx ▸ h.2⟩

section
variable {α : Type} {c d : Clients ι Row Env Io α}

theorem Holds.stays (ho : Orderly c) (hs : c.step machine i e = some d) (hj : j ≠ i)
    (h : Holds sid p j (c.threads j).loc c.shared s) : Holds sid p j (c.threads j).loc d.shared s := by
  have hn := commits_other ho hs hj
  cases s with
  | idle => exact ⟨hn ▸ h.1, h.2⟩
  | absent => exact ⟨hn ▸ h.1, h.2⟩
  | held blob =>
    obtain ⟨hc, hw, hl, hb⟩ := h
    exact ⟨hn ▸ hc, hw, (locks_other hs hj).2 hl, (blobOf_congr (ho.locked_stays hs hj hl (by decide))).trans hb⟩
  | wrote =>
    obtain ⟨hc, ⟨w, hw, hk⟩, hall, fs, hfs, hfs'⟩ := h
    -- What it wrote, it has locked.
    have hv : versions (.metadata (sid j)) d.shared.db = versions (.metadata (sid j)) c.shared.db := by
      cases ht : (c.threads j).loc.tx with
      | none => simp [Client.writes, ht] at hw
      | some t =>
        obtain ⟨m, hm, hl⟩ := (ho.covered j t ht w (by simpa [Client.writes, ht] using hw)).row
        rw [← hk]
        exact ho.locked_stays hs hj (mem_own_locks.1 hl) hm
    refine ⟨hn ▸ hc, ⟨w, hw, hk⟩, hall, fs, ?_, ?_⟩
    · rw [blobOf_congr (versions_applyAll_congr hv _)]; exact hfs
    · rw [blobOf_congr hv]; exact hfs'
  | committed => exact ⟨hn ▸ h.1, h.2⟩

end

/-- Writes at the session's key only. -/
theorem Holds.merged (h : Holds sid p i conn sv .wrote) (hcov : readAbsent conn = true →
      ∀ k ∈ keysOf (blobOf (sid i) sv.db), (Json.get (p i) k).isSome = true) :
    Commits sid p sv.db i conn.writes := by
  obtain ⟨-, -, hall, fs, hfs, hfs'⟩ := h
  refine ⟨⟨fs, hfs, ?_⟩, fun s hs => ?_⟩
  · rcases hfs' with hfs' | ⟨hr, hfs'⟩
    · exact hfs'
    · rw [hfs', overlay_covering (hcov hr)]
  · refine blobOf_other (fun w hw hk => ?_) _
    have := (hall w hw).symm.trans hk
    cases this; exact hs rfl

theorem Holds.query_tx (hu : ∀ t, conn.tx = some t → KeysUnique (applyAll t.writes sv.db))
    (h : Holds sid p i conn sv s) {q : Sql} {r : Answer (.query .tx q : Operation)}
    (hm : (protocol (sid i) (p i)).may s (.query .tx q))
    (hx : machine.exec i e conn sv (.query .tx q) = some (some r, c', sv')) :
    ∃ t, (protocol (sid i) (p i)).next s (.query .tx q) r t ∧ Holds sid p i c' sv' t ∧ sv'.log = sv.log := by
  have hist : ∀ (c : Conn) o r, ∀ x ∈ c.hist, x ∈ (Client.done c o r).hist :=
    fun c o r x hx => List.mem_append_left _ hx
  rcases query_tx_done hx with ⟨err, rfl, rfl, rfl⟩ | ⟨t, snap, rows, ws, eff, ht, hs, _, heff, hres, _, rfl, rfl, rfl⟩
  · refine ⟨s, ?_, h.same rfl (hist _ _ _) rfl rfl fun _ hl => hl, rfl⟩
    cases q <;> rfl
  · have hlocks : ∀ k ∈ sv.locks, k ∈ eff.needs.map (i, ·) ++ sv.locks := fun k hk => List.mem_append_right _ hk
    have hwr : conn.writes = t.writes := by simp [Client.writes, ht]
    subst heff
    cases q with
    | forUpdate q =>
      obtain ⟨rfl, hq⟩ := hm
      obtain ⟨hn, hw⟩ := h
      have htw : t.writes = [] := hwr ▸ hw
      rw [hq] at hres hlocks ⊢
      obtain ⟨hrows, rfl, hneeds⟩ := forUpdate_ok hres
      cases hhead : (metadataT.rows rows).head? with
      | none =>
        refine ⟨.absent, ⟨fun _ => rfl, fun m hm => ?_⟩, ⟨hn, ?_, ?_⟩, rfl⟩
        · rw [hhead] at hm; cases hm
        · simp [Client.done, Client.writes, htw]
        · refine List.any_eq_true.2 ⟨⟨.query .tx (Metadata.lockSql (sid i)), .ok rows⟩, by simp [Client.done], ?_⟩
          simpa [Metadata.lockSql, Table.forUpdate] using List.head?_eq_none_iff.1 hhead
      | some m =>
        have hmem : Row.metadata m ∈ rows := metadataT.mem_rows.1 (List.mem_of_mem_head? hhead)
        obtain ⟨y, hy, hcur, hpy, -⟩ := (mem_hits metadataT).1 (hrows ▸ hmem)
        obtain rfl := metadataT.put_inj hy
        have hid : m.sessionId = sid i := by simpa [Metadata.byId] using hpy
        have hlook := (hu t ht).lookup_eq hcur
        rw [htw, applyAll_nil, show key (metadataT.put m) = .metadata m.sessionId from rfl, hid] at hlook
        refine ⟨.held m.blob, ⟨fun hno => ?_, fun m' hm' => ?_⟩, ⟨hn, ?_, ?_, blobOf_eq hlook⟩, rfl⟩
        · rw [hhead] at hno; cases hno
        · rw [hhead] at hm'; cases hm'; rfl
        · simp [Client.done, Client.writes, htw]
        · refine List.mem_append_left _ (List.mem_map.2 ⟨_, hneeds _ hmem, ?_⟩)
          rw [show key (Row.metadata m) = .metadata m.sessionId from rfl, hid]
    | insert mk =>
      obtain ⟨base, etag, hbase, hq⟩ := hm
      rw [hq] at hres hlocks ⊢
      obtain ⟨w, rfl, hk, hb⟩ := upsert_ok hres
      have hbase' : commits i sv.log = 0 ∧ conn.writes = [] ∧
          (Json.get base = fieldsOf (blobOf (sid i) sv.db) ∨ readAbsent conn = true ∧ base = []) := by
        cases s with
        | absent => exact ⟨h.1, h.2.1, .inr ⟨h.2.2, hbase⟩⟩
        | held blob => exact ⟨h.1, h.2.1, .inl (by rw [h.2.2.2]; exact hbase)⟩
        | _ => exact hbase.elim
      obtain ⟨hn, hw, hor⟩ := hbase'
      have htw : t.writes = [] := hwr ▸ hw
      have hw' : ∀ (r : List Row), (Client.done { conn with tx := some { t with writes := t.writes ++ [w] } }
          (.query .tx (Metadata.upsertSql (sid i) (.obj ((p i).foldl Json.insert base)) etag)) (.ok r)).writes = [w] := by
        intro r
        simp [Client.done, Client.writes, htw]
      rw [htw, applyAll_nil] at hb
      refine ⟨.wrote, rfl, ⟨hn, ⟨w, by rw [hw']; simp, hk⟩, fun v hv => ?_, _, by rw [hw']; exact hb, ?_⟩, rfl⟩
      · rw [hw'] at hv
        rw [List.mem_singleton.1 hv]; exact hk
      · rw [get_merge]
        rcases hor with hget | ⟨hr, rfl⟩
        · exact .inl (by rw [hget])
        · exact .inr ⟨readAbsent_mono hr (hist _ _ _), by funext k; simp [overlay, Json.get]⟩
    | _ => exact hm.elim

/-- A completed operation. The commit is as it should be if the merge read
the row, or covers what is there now. -/
theorem Holds.done (hu : ∀ t, conn.tx = some t → KeysUnique (applyAll t.writes sv.db))
    (h : Holds sid p i conn sv s) {o : Operation} {r : Answer o} (hm : (protocol (sid i) (p i)).may s o)
    (hcov : o = .commit → readAbsent conn = true →
      ∀ k ∈ keysOf (blobOf (sid i) sv.db), (Json.get (p i) k).isSome = true)
    (hx : machine.exec i e conn sv o = some (some r, c', sv')) :
    ∃ t, (protocol (sid i) (p i)).next s o r t ∧ Holds sid p i c' sv' t ∧
      (sv'.log = sv.log ∨ ∃ ws, sv'.log = sv.log ++ [(i, ws)] ∧ Commits sid p sv.db i ws) := by
  have hist : ∀ (c : Conn) o r, ∀ x ∈ c.hist, x ∈ (Client.done c o r).hist :=
    fun c o r x hx => List.mem_append_left _ hx
  cases o with
  | query via q =>
    cases via with
    | tx =>
      obtain ⟨t, ht, hh, hlog⟩ := h.query_tx hu hm hx
      exact ⟨t, ht, hh, .inl hlog⟩
    | pool => exact hm.elim
  | begin =>
    obtain rfl : s = .idle := hm
    rcases begin_done hx with ⟨err, rfl, rfl, rfl⟩ | ⟨rfl, rfl, rfl⟩
    · exact ⟨.idle, rfl, h.same rfl (hist _ _ _) rfl rfl fun _ hl => hl, .inl rfl⟩
    · exact ⟨.idle, rfl, ⟨h.1, rfl⟩, .inl rfl⟩
  | commit =>
    obtain rfl : s = .wrote := hm
    rcases commit_done hx with ⟨err, rfl, rfl, rfl⟩ | ⟨rfl, rfl, rfl⟩
    · exact ⟨.idle, rfl, ⟨h.1, rfl⟩, .inl rfl⟩
    · refine ⟨.committed, rfl, ⟨?_, rfl⟩, .inr ⟨conn.writes, rfl, h.merged (hcov rfl)⟩⟩
      have := h.1
      simp only [Server.release, Server.apply]
      rw [commits_append, this, if_pos rfl]
  | rollback => exact hm.elim
  | outer x =>
    obtain ⟨_, rfl, rfl⟩ := outer_done hx
    exact ⟨s, rfl, h.same rfl (hist _ _ _) rfl rfl fun _ hl => hl, .inl rfl⟩

/-- A merge that has returned drops its transaction, if it still has one. -/
theorem Holds.close {a : Except AppError MetadataBlob} (h : Holds sid p i conn sv s) (ha : Answers s a) :
    ∃ t, Answers t a ∧ Holds sid p i { conn with tx := none } (sv.release i) t := by
  have hn : s ≠ .committed → commits i sv.log = 0 := by
    intro hs
    cases s with
    | committed => exact absurd rfl hs
    | _ => exact h.1
  by_cases hs : s = .committed
  · subst hs
    exact ⟨.committed, ha, h.1, rfl⟩
  · refine ⟨.idle, ?_, hn hs, rfl⟩
    cases a with
    | ok row => exact absurd ha hs
    | error e => simp [Answers]

end

/-! ## Runs -/

/-- The merges have arrived, none has begun. -/
def start {ι : Type} (sid : ι → Uuid) (p : ι → List (String × Json)) (sv : Sv ι) :
    Clients ι Row Env Io (Except AppError MetadataBlob) where
  threads i := { prog := (Metadata.shallowMerge (sid i) none (.obj (p i))).run, loc := {} }
  shared := sv

/-- The patches of the merges of a session that succeeded, in commit order. -/
def patches {ι : Type} (sid : ι → Uuid) (p : ι → List (String × Json)) (s : Uuid)
    (log : List (ι × List (Write Row Key))) : List (List (String × Json)) :=
  (log.filter fun t => sid t.1 = s).map fun t => p t.1

theorem blob_replay {ι : Type} {sid : ι → Uuid} {p : ι → List (String × Json)} {db₀ : Db}
    {log : List (ι × List (Write Row Key))} (h : Logged (Commits sid p) db₀ log) (s : Uuid) :
    fieldsOf (blobOf s (replay db₀ log)) = (patches sid p s log).foldl overlay (fieldsOf (blobOf s db₀)) := by
  refine h.induct (I := fun log => fieldsOf (blobOf s (replay db₀ log)) =
    (patches sid p s log).foldl overlay (fieldsOf (blobOf s db₀))) rfl ?_
  intro log i ws _ ih hc
  rw [replay_append]
  by_cases hs : sid i = s
  · subst hs
    obtain ⟨fs, hfs, hget⟩ := hc.merged
    have hp : patches sid p (sid i) (log ++ [(i, ws)]) = patches sid p (sid i) log ++ [p i] := by simp [patches]
    rw [hp, List.foldl_append, ← ih, List.foldl_cons, List.foldl_nil, ← hget]
    exact congrArg fieldsOf hfs
  · have hp : patches sid p s (log ++ [(i, ws)]) = patches sid p s log := by simp [patches, hs]
    rw [hp, ← ih]
    exact congrArg fieldsOf (hc.others s (Ne.symm hs))

theorem object_replay {ι : Type} {sid : ι → Uuid} {p : ι → List (String × Json)} {db₀ : Db}
    {log : List (ι × List (Write Row Key))} (h : Logged (Commits sid p) db₀ log) {s : Uuid}
    (h₀ : IsObject (blobOf s db₀)) : IsObject (blobOf s (replay db₀ log)) := by
  refine h.induct (I := fun log => IsObject (blobOf s (replay db₀ log))) h₀ fun log i ws _ ih hc => ?_
  rw [replay_append]
  by_cases hs : sid i = s
  · subst hs
    obtain ⟨fs, hfs, -⟩ := hc.merged
    rw [show blobOf (sid i) (replay (replay db₀ log) [(i, ws)]) = some (.obj fs) from hfs]
    trivial
  · rw [show blobOf s (replay (replay db₀ log) [(i, ws)]) = blobOf s (replay db₀ log) from hc.others s (Ne.symm hs)]
    exact ih

/-- If no merge that read no row commits over a blob with a key it does not
have, the blob of every session is at all times the first one overlaid by the
successful patches in commit order. -/
theorem merges_keep_keys {ι : Type} [DecidableEq ι] (sid : ι → Uuid) (p : ι → List (String × Json)) (sv₀ : Sv ι)
    (hstart : sv₀.Quiescent) {c : Clients ι Row Env Io (Except AppError MetadataBlob)}
    (h : Run machine (fun c i _ => covers sid p c i = true) (start sid p sv₀) c) :
    (∀ s, IsObject (blobOf s sv₀.db) → IsObject (blobOf s c.shared.db) ∧
      fieldsOf (blobOf s c.shared.db) = (patches sid p s c.shared.log).foldl overlay (fieldsOf (blobOf s sv₀.db))) ∧
    ∀ i a, c.returned i = some a → commits i c.shared.log = if a.isOk then 1 else 0 := by
  have ho : Orderly (start sid p sv₀) := Orderly.start hstart
  have hdb : c.shared.db = replay sv₀.db c.shared.log := Run.replay hstart.log ho h
  obtain ⟨hL, g, hg⟩ := Run.clients (H := fun i s l sv => Holds sid p i l sv s) (G := fun _ => .idle)
      (P := fun i => protocol (sid i) (p i)) (Q := fun _ => Answers) (φ := Commits sid p)
      hstart.log ho (fun i => ⟨by simp [start, hstart.log, commits], rfl⟩) (fun i => shallowMerge_follows (sid i) (p i))
      (fun c c' i j e s ho _ hs hj _ hH => Holds.stays ho hs hj hH)
      (fun i s l sv hH _ => Holds.same hH rfl (fun _ hx => hx) rfl rfl (fun _ hl => hl))
      (fun c i e o k r l sv s ho _ _ hg hp hm hH hx =>
        Holds.done (ho.view i) hH hm (fun ho hr => by subst ho; exact covers_commit hg hp hr) hx)
      (fun i s a l sv hH hQ => Holds.close hH hQ) h
  refine ⟨fun s h₀ => by rw [hdb]; exact ⟨object_replay hL h₀, blob_replay hL s⟩, fun i a ha => ?_⟩
  obtain ⟨hH, hF⟩ := hg i
  rw [Config.returned_iff.1 ha] at hF
  cases a with
  | ok row =>
    have hs : g i = .committed := hF
    rw [hs] at hH
    exact hH.1
  | error e =>
    have hs : g i ≠ .committed := hF
    cases hgi : g i with
    | committed => exact absurd hgi hs
    | _ => rw [hgi] at hH; exact hH.1

/-- Two patches of one session. -/
def samplePatches : Fin 2 → List (String × Json)
  | 0 => [("a", .int 1)]
  | 1 => [("b", .int 2)]

def sampleStart : Clients (Fin 2) Row Env Io (Except AppError MetadataBlob) :=
  start (fun _ => Sample.sessionId) samplePatches (Sample.server [.session Sample.session])

/-- One after the other, the second finds the row of the first. -/
theorem merges_keep_keys_sample : ∃ c : Clients (Fin 2) Row Env Io (Except AppError MetadataBlob),
    c.shared.log.length = 2 ∧ fieldsOf (blobOf Sample.sessionId c.shared.db) =
      (patches (fun _ => Sample.sessionId) samplePatches Sample.sessionId c.shared.log).foldl overlay
        (fieldsOf (blobOf Sample.sessionId [.session Sample.session])) := by
  have hrun : (sampleStart.play machine (Sample.moves 0 [(0, 8), (1, 7)])).map (fun c => c.shared.log.length) = some 2 := by
    decide +kernel
  obtain ⟨c, hc, hlog⟩ := Option.map_eq_some_iff.1 hrun
  refine ⟨c, hlog, ((merges_keep_keys (fun _ => Sample.sessionId) samplePatches
    (Sample.server [.session Sample.session]) ⟨by decide, rfl, rfl⟩ (Run.play ?_ .nil hc)).1 _ trivial).2⟩
  have hg : sampleStart.Guarded machine
      (fun c i _ => covers (fun _ => Sample.sessionId) samplePatches c i = true)
      (Sample.moves 0 [(0, 8), (1, 7)]) := by decide +kernel
  exact hg

/-- Both look before either has committed: the row of the first is replaced,
and its key is lost. -/
theorem merges_lose_keys : ∃ c : Clients (Fin 2) Row Env Io (Except AppError MetadataBlob),
    Run machine (fun _ _ _ => True) sampleStart c ∧
    (∀ i, ∃ row, c.returned i = some (.ok row)) ∧
    fieldsOf (blobOf Sample.sessionId c.shared.db) ≠
      (patches (fun _ => Sample.sessionId) samplePatches Sample.sessionId c.shared.log).foldl overlay
        (fieldsOf (blobOf Sample.sessionId [.session Sample.session])) := by
  have hrun : (sampleStart.play machine (Sample.moves 0 [(0, 3), (1, 3), (0, 5), (1, 5)])).map (fun c =>
      ((c.returned 0).map (·.isOk), (c.returned 1).map (·.isOk),
        (fieldsOf (blobOf Sample.sessionId c.shared.db) "a").isSome,
        ((patches (fun _ => Sample.sessionId) samplePatches Sample.sessionId c.shared.log).foldl overlay
          (fieldsOf (blobOf Sample.sessionId [.session Sample.session])) "a").isSome)) =
      some (some true, some true, false, true) := by decide +kernel
  obtain ⟨c, hc, hr⟩ := Option.map_eq_some_iff.1 hrun
  simp only [Prod.mk.injEq] at hr
  obtain ⟨h0, h1, hlost, hkept⟩ := hr
  have hok : ∀ o : Option (Except AppError MetadataBlob), o.map (·.isOk) = some true → ∃ row, o = some (.ok row) := by
    intro o ho
    match o, ho with
    | some (.ok row), _ => exact ⟨row, rfl⟩
  refine ⟨c, Run.play (Config.guarded_of_all (fun _ _ _ => trivial) _) .nil hc, fun i => ?_, fun heq => ?_⟩
  · match i with
    | 0 => exact hok _ h0
    | 1 => exact hok _ h1
  · rw [heq, hkept] at hlost
    cases hlost

end DataApi.MetadataMerge
