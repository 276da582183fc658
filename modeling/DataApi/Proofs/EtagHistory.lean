/-
No lost update through ETags. A patch reads its row under FOR UPDATE and
holds the lock to the commit, so the version it compared with is the version
it replaces; every write draws a new ETag, so an ETag names one version
(`ReadCommitted.Fresh`) and is gone once that version is replaced.
-/
import DataApi.Db.Writes
import DataApi.Lib.Tags
import DataApi.Rules

namespace DataApi.EtagHistory

open Relational ReadCommitted Resumption Handler DataApi.Uniform

/-! ## Rows that read -/

/-- The row reads as a `UniformRow`. -/
def Reads (r : UniformPgRow) : Prop := ∃ u, rowFromPg r = .ok u

theorem parsePseudo_ok {x : Option String} : (∃ p, parsePseudo x = .ok p) ↔ x.all isValidPseudoId = true := by
  cases x with
  | none => simp [parsePseudo]
  | some s =>
    by_cases hs : isValidPseudoId s = true
    · simp [parsePseudo, PseudoId.new, hs]
    · simp [parsePseudo, PseudoId.new, hs]

theorem rowFromPg_ok {r : UniformPgRow} {u : UniformRow} (h : rowFromPg r = .ok u) :
    (∃ p, parsePseudo (pseudoColumn r.columns) = .ok p) ∧ (∃ p, parsePseudo r.authorUserPseudoId = .ok p) ∧
      u.etag = ⟨r.etag⟩ := by
  obtain ⟨p, hp, h⟩ := bind_ok h
  obtain ⟨a, ha, h⟩ := bind_ok h
  obtain rfl := Except.ok.inj h
  exact ⟨⟨p, hp⟩, ⟨a, ha⟩, rfl⟩

theorem reads_iff {r : UniformPgRow} : Reads r ↔
    (pseudoColumn r.columns).all isValidPseudoId = true ∧ r.authorUserPseudoId.all isValidPseudoId = true := by
  rw [← parsePseudo_ok, ← parsePseudo_ok]
  constructor
  · rintro ⟨u, hu⟩
    exact ⟨(rowFromPg_ok hu).1, (rowFromPg_ok hu).2.1⟩
  · rintro ⟨⟨p, hp⟩, a, ha⟩
    change ∃ u, (parsePseudo (pseudoColumn r.columns) >>= fun p => parsePseudo r.authorUserPseudoId >>= _) = .ok u
    rw [hp, ha]
    exact ⟨_, rfl⟩

/-- A patched row that passes its CHECK reads. -/
theorem Reads.patched {r : UniformPgRow} (h : Reads r) {u : UniformRow} {author : Option PseudoId} {etag : ETag}
    {env : Env} {rt : ResourceTable} (hc : check (Row.uniform rt (setPatched u author etag env r)) = true) :
    Reads (setPatched u author etag env r) := by
  refine reads_iff.2 ⟨?_, hc⟩
  have hcols : pseudoColumn (setPatched u author etag env r).columns = pseudoColumn r.columns := by
    unfold setPatched
    cases r.columns <;> rfl
  rw [hcols]; exact (reads_iff.1 h).1

/-! ## Calls -/

/-- The calls of `db::uniform` that write. -/
inductive Call
  | bulkInsert (sessionId : Uuid) (authorService : String) (inputs : List CreateInput)
  | patch (id : Uuid) (expected : Option ETag) (body : PatchInput)
  | delete (id : Uuid)

def Call.code (rt : ResourceTable) : Call → Handler Reply
  | .bulkInsert sid svc inputs => .bulk <$> Uniform.bulkInsert rt sid svc inputs
  | .patch id expected body => .row <$> Uniform.patch rt id expected body
  | .delete id => .row <$> Uniform.delete rt id

def Call.isPatch : Call → Bool
  | .patch _ _ _ => true
  | _ => false

/-- The body names no author, or a pseudonym. -/
def Named (body : PatchInput) : Prop := body.authorUserPseudoId.all (fun p => isValidPseudoId p.raw) = true

/-- The error that a statement, a BEGIN or a COMMIT answered. -/
def erred : (o : Operation) × Answer o → Option (DbError Key Uniq)
  | ⟨.query _ _, .error d⟩ | ⟨.begin, .error d⟩ | ⟨.commit, .error d⟩ => some d
  | _ => none

/-- The errors that a client's own operations answered. -/
def errors (c : Conn) : List (DbError Key Uniq) := c.hist.filterMap erred

/-- What a patch that does not succeed answers; a database error is one that
the server answered it with, for reasons of its own. -/
def Refused (c : Conn) (e : AppError) : Prop :=
  (∃ tag, e = .preconditionFailed tag) ∨ (∃ msg, e = .notFound msg) ∨ (e = .database .failure ∧ .failure ∈ errors c)

/-- Where a call stands: rows it inserted, with an ETag drawn for the next or
not; the row a patch has locked, with its new ETag or not; its UPDATE done; an
operation failed. -/
inductive Stage
  | adding (rs : List UniformPgRow)
  | addTag (rs : List UniformPgRow) (tag : ETag)
  | held (r : UniformPgRow)
  | heldTag (r : UniformPgRow) (tag : ETag)
  | wrote (r : UniformPgRow)
  | committed
  | failed (d : DbError Key Uniq)

/-- The expected ETag, if there is one, is that of the row. -/
def Matches (expected : Option ETag) (r : UniformPgRow) : Prop := ∀ e, expected = some e → e = ⟨r.etag⟩

def protocol (rt : ResourceTable) (call : Call) : Protocol (@Answer Row Key Uniq Env Io World _ _) Stage where
  may s
    | .begin => s = .adding []
    | .query .tx (.select _) => s = .adding []
    | .query .tx (.forUpdate q) => s = .adding [] ∧ ∃ id ex body, call = .patch id ex body ∧
        Stmt.forUpdate q = lockSql rt id
    | .query .tx (.insert mk) => call.isPatch = false ∧
        ∃ rs tag sid svc inp, s = .addTag rs tag ∧ .insert mk = insertRowSql rt sid svc inp tag
    | .query .tx (.update q set) => ∃ r tag u id ex body, s = .heldTag r tag ∧ call = .patch id ex body ∧
        rowFromPg r = .ok u ∧ Matches ex r ∧ .update q set = updateSql rt id (applyPatch rt body u) body.authorUserPseudoId tag
    | .query .tx (.delete _) => False
    | .query .pool q => s = .adding [] ∧ ∃ id, call = .delete id ∧ q = deleteSql rt id
    | .commit => (∃ r, s = .wrote r) ∨ ∃ rs, s = .adding rs ∧ call.isPatch = false ∧ ∀ r ∈ rs, Reads r
    | .rollback => False
    | .outer x => x = .newEtag ∧ ((∃ r, s = .held r) ∨ ∃ rs, s = .adding rs)
  next s
    | .query .tx (.forUpdate _), .ok rows, t => (((uniformT rt).rows rows).head? = none → t = s) ∧
        ∀ r, ((uniformT rt).rows rows).head? = some r → Reads r ∧ t = .held r
    | .query .tx (.insert _), .ok rows, t => ∀ rs tag r, s = .addTag rs tag →
        ((uniformT rt).rows rows).head? = some r → t = .adding (rs ++ [r])
    | .query .tx (.update _ _), .ok rows, t => ∀ r tag, s = .heldTag r tag →
        ∃ r', ((uniformT rt).rows rows).head? = some r' ∧ Reads r' ∧ t = .wrote r
    | .query .pool _, .ok _, t => t = .committed
    | .commit, .ok _, t => t = .committed
    | .query _ _, .error d, t | .begin, .error d, t | .commit, .error d, t => t = .failed d
    | .outer .newEtag, tag, t => (∀ r, s = .held r → t = .heldTag r tag) ∧ ∀ rs, s = .adding rs → t = .addTag rs tag
    | _, _, t => t = s

/-- A patch succeeds exactly when it has committed; an error of the database
is the one that ended it. -/
def Answers (call : Call) (s : Stage) : Except AppError Reply → Prop
  | .ok _ => call.isPatch = true → s = .committed
  | .error e => call.isPatch = true → s ≠ .committed ∧
      ((∃ tag, e = .preconditionFailed tag) ∨ (∃ msg, e = .notFound msg) ∨ ∃ d, e = .database d ∧ s = .failed d)

abbrev Follows {β : Type} (rt : ResourceTable) (call : Call) (Q : Stage → Except AppError β → Prop) (s : Stage)
    (h : Handler β) : Prop := Prog.Follows (protocol rt call) Q s h.run

/-! ### The handlers follow it -/

section
variable {rt : ResourceTable}

theorem patch_follows (id : Uuid) (expected : Option ETag) (body : PatchInput) :
    Follows rt (.patch id expected body) (fun t a => Answers (.patch id expected body) t (a.map .row)) (.adding [])
      (patch rt id expected body) := by
  have db : ∀ (d : DbError Key Uniq) (t : Stage), t = .failed d →
      Answers (.patch id expected body) t (Except.map Reply.row (.error (.database d))) :=
    fun d t ht _ => ⟨by rw [ht]; simp, .inr (.inr ⟨d, rfl, ht⟩)⟩
  rw [patch]
  refine follows_begin rfl db fun t ht => ?_
  obtain rfl : t = .adding [] := ht
  rw [found, bind_assoc]
  refine follows_fetchOptional ⟨rfl, id, expected, body, rfl, rfl⟩ db fun rows t ht => ?_
  cases hx : ((uniformT rt).rows rows).head? with
  | none =>
    obtain rfl := ht.1 hx
    exact follows_throw fun _ => ⟨by simp, .inr (.inl ⟨_, rfl⟩)⟩
  | some r =>
    obtain ⟨⟨u, hu⟩, rfl⟩ := ht.2 r hx
    rw [pure_bind]
    refine follows_ofResult (fun e he => by rw [hu] at he; cases he) fun u' hu' => ?_
    obtain rfl := Except.ok.inj (hu.symm.trans hu')
    have htag := (rowFromPg_ok hu).2.2
    refine follows_refuseIf (fun _ _ => ⟨by simp, .inl ⟨_, rfl⟩⟩) fun hne => ?_
    have hmatch : Matches expected r := by
      intro e he
      rw [he] at hne
      simp only [Option.any_some, decide_eq_false_iff_not, not_not] at hne
      rw [hne, htag]
    refine follows_newEtag ⟨rfl, .inl ⟨r, rfl⟩⟩ fun tag t ht => ?_
    obtain rfl := ht.1 r rfl
    refine follows_fetchOne ⟨r, tag, u, id, expected, body, rfl, rfl, hu, hmatch, rfl⟩ db (fun rows t ht hno => ?_)
      fun rows t r' ht hr' => ?_
    · obtain ⟨r', hr', -⟩ := ht r tag rfl
      rw [hno] at hr'
      cases hr'
    · obtain ⟨r'', hr'', ⟨v, hv⟩, rfl⟩ := ht r tag rfl
      obtain rfl := Option.some.inj (hr'.symm.trans hr'')
      refine follows_ofResult (fun e he => by rw [hv] at he; cases he) fun out _ => ?_
      exact follows_commit (.inl ⟨r, rfl⟩) db fun t ht => follows_pure fun _ => ht

/-- The loop over the rows to insert keeps all of them readable. -/
theorem insertRows_follows {call : Call} (hcall : call.isPatch = false) {Q : Stage → Except AppError BulkResult → Prop}
    (sid : Uuid) (svc : String) (hQ : ∀ t e, Q t (.error e)) : ∀ (inputs : List CreateInput) (rs : List UniformPgRow)
    (f : List UniformRow → Handler BulkResult), (∀ r ∈ rs, Reads r) →
    (∀ rs us, (∀ r ∈ rs, Reads r) → Follows rt call Q (.adding rs) (f us)) →
    Follows rt call Q (.adding rs) (Uniform.insertRows rt sid svc inputs >>= f)
  | [], rs, f, hrs, hf => hf rs [] hrs
  | inp :: rest, rs, f, hrs, hf => by
    rw [Uniform.insertRows, bind_assoc]
    refine follows_newEtag ⟨rfl, .inr ⟨rs, rfl⟩⟩ fun tag t ht => ?_
    obtain rfl := ht.2 rs rfl
    simp only [insertRowInTx, bind_assoc]
    refine follows_fetchOne ⟨hcall, rs, tag, sid, svc, inp, rfl, rfl⟩ (fun _ _ _ => hQ _ _) (fun _ _ _ _ => hQ _ _) ?_
    intro rows t r ht hr
    obtain rfl := ht rs tag r rfl hr
    refine follows_ofResult (fun _ _ => hQ _ _) fun u hu => ?_
    refine insertRows_follows hcall sid svc hQ rest (rs ++ [r]) (fun us => pure (u :: us) >>= f) (fun x hx => ?_) ?_
    · rcases List.mem_append.1 hx with hx | hx
      · exact hrs x hx
      · rw [List.mem_singleton.1 hx]; exact ⟨u, hu⟩
    · exact fun rs us h => hf rs (u :: us) h

theorem bulkInsert_follows (sid : Uuid) (svc : String) (inputs : List CreateInput) :
    Follows rt (.bulkInsert sid svc inputs) (fun _ _ => True) (.adding []) (bulkInsert rt sid svc inputs) := by
  unfold bulkInsert
  split
  · exact follows_pure trivial
  refine follows_ofResult (fun _ _ => trivial) fun _ _ => ?_
  refine follows_begin rfl (fun _ _ _ => trivial) fun t ht => ?_
  obtain rfl : t = .adding [] := ht
  refine follows_fetchAll rfl (fun _ _ _ => trivial) fun rows t ht => ?_
  obtain rfl : t = .adding [] := ht
  refine insertRows_follows rfl sid svc (fun _ _ => trivial) _ [] _ (by simp) fun rs us hrs => ?_
  exact follows_commit (.inr ⟨rs, rfl, rfl, hrs⟩) (fun _ _ _ => trivial) fun _ _ => follows_pure trivial

theorem delete_follows (id : Uuid) :
    Follows rt (.delete id) (fun _ _ => True) (.adding []) (delete rt id) := by
  rw [delete, found, bind_assoc]
  refine follows_fetchOptional ⟨rfl, id, rfl, rfl⟩ (fun _ _ _ => trivial) fun rows t ht => ?_
  cases ((uniformT rt).rows rows).head? with
  | none => exact follows_throw trivial
  | some r =>
    rw [pure_bind, ← bind_pure (ofResult _)]
    exact follows_ofResult (fun _ _ => trivial) fun _ _ => follows_pure trivial

theorem code_follows (call : Call) : Follows rt call (Answers call) (.adding []) (call.code rt) := by
  cases call with
  | patch id expected body => exact follows_map (patch_follows id expected body)
  | bulkInsert sid svc inputs =>
    refine follows_map ((bulkInsert_follows sid svc inputs).mono fun t a _ => ?_)
    cases a <;> exact fun h => by cases h
  | delete id =>
    refine follows_map ((delete_follows id).mono fun t a _ => ?_)
    cases a <;> exact fun h => by cases h

end

/-! ## What a stage means -/

/-- The ETags a client has drawn, oldest first. -/
def draws (c : Conn) : List ETag := c.hist.filterMap fun
  | ⟨.outer .newEtag, tag⟩ => some tag
  | _ => none

def UniformPgRow.tag (r : UniformPgRow) : ETag := ⟨r.etag⟩

/-- The ETag of a row of the table. -/
def etagOf (rt : ResourceTable) (r : Row) : Option ETag := ((uniformT rt).get r).map UniformPgRow.tag

/-- The writes are those of a patch of the version `r`. -/
def Patches (rt : ResourceTable) (expected : Option ETag) (body : PatchInput) (r : UniformPgRow) (tag : ETag)
    (ws : List (Write Row Key)) : Prop :=
  ∃ u env, rowFromPg r = .ok u ∧ Matches expected r ∧
    ws = [.update (.uniform rt (setPatched (applyPatch rt body u) body.authorUserPseudoId tag env r))]

section
variable {ι : Type} [DecidableEq ι] (rt : ResourceTable) (call : ι → Call)

/-- A patch holds its row, whose version is `r`. -/
def Locked (i : ι) (sv : Sv ι) (id : Uuid) (r : UniformPgRow) : Prop :=
  (i, (.row (.uniform rt id), .update)) ∈ sv.locks ∧ lookup (.uniform rt id) sv.db = some (.uniform rt r)

def Holds (i : ι) (c : Conn) (sv : Sv ι) : Stage → Prop
  | .adding rs => commits i sv.log = 0 ∧ c.writes = rs.map (fun r => .insert (.uniform rt r)) ∧
      (rs.map UniformPgRow.tag).Sublist (draws c)
  | .addTag rs tag => commits i sv.log = 0 ∧ c.writes = rs.map (fun r => .insert (.uniform rt r)) ∧
      (rs.map UniformPgRow.tag ++ [tag]).Sublist (draws c)
  | .held r => commits i sv.log = 0 ∧ c.writes = [] ∧
      ∀ id ex body, call i = .patch id ex body → Locked rt i sv id r
  | .heldTag r tag => commits i sv.log = 0 ∧ c.writes = [] ∧ tag ∈ draws c ∧
      ∀ id ex body, call i = .patch id ex body → Locked rt i sv id r
  | .wrote r => commits i sv.log = 0 ∧ ∃ id ex body tag, call i = .patch id ex body ∧ tag ∈ draws c ∧
      Locked rt i sv id r ∧ Patches rt ex body r tag c.writes ∧
      ∀ r', .update (.uniform rt r') ∈ c.writes → Reads r'
  | .committed => commits i sv.log = 1 ∧ ∀ ws, (i, ws) ∈ sv.log → (tagsOf (etagOf rt) ws).Sublist (draws c)
  | .failed d => commits i sv.log = 0 ∧ d ∈ errors c ∧
      ∀ id ex body, call i = .patch id ex body → Named body → d = .failure

/-- What a call commits: rows that read, and if it is a patch, the version it
read with its body applied. -/
structure Commits (db : Db) (i : ι) (ws : List (Write Row Key)) : Prop where
  reads : ∀ r, .insert (.uniform rt r) ∈ ws ∨ .update (.uniform rt r) ∈ ws → Reads r
  patched : ∀ id ex body, call i = .patch id ex body → ∃ r tag, lookup (.uniform rt id) db = some (.uniform rt r) ∧
    Patches rt ex body r tag ws

variable {rt call} {i j : ι} {conn c' : Conn} {sv sv' : Sv ι} {s : Stage} {e : Env}

omit [DecidableEq ι] in
/-- Every row of the table reads, all along the log. -/
theorem reads_replay {db₀ : Db} {log : List (ι × List (Write Row Key))} (h : Logged (Commits rt call) db₀ log)
    (h₀ : ∀ r, .uniform rt r ∈ db₀ → Reads r) : ∀ r, .uniform rt r ∈ replay db₀ log → Reads r := by
  refine h.induct (I := fun log => ∀ r, .uniform rt r ∈ replay db₀ log → Reads r) h₀ ?_
  intro log i ws _ ih hc r hr
  rw [replay_append] at hr
  rcases mem_applyAll hr with hr | hr
  · exact ih r hr
  · exact hc.reads r hr

/-- A move that writes nothing. -/
theorem Holds.same (h : Holds rt call i conn sv s) (hw : c'.writes = conn.writes)
    (hd : (draws conn).Sublist (draws c')) (he : ∀ d ∈ errors conn, d ∈ errors c') (hdb : sv'.db = sv.db)
    (hlog : sv'.log = sv.log) (hlocks : ∀ l ∈ sv.locks, l ∈ sv'.locks) : Holds rt call i c' sv' s := by
  have hlocked : ∀ id r, Locked rt i sv id r → Locked rt i sv' id r := fun id r hl => ⟨hlocks _ hl.1, hdb ▸ hl.2⟩
  cases s with
  | adding rs => exact ⟨hlog ▸ h.1, hw ▸ h.2.1, h.2.2.trans hd⟩
  | addTag rs tag => exact ⟨hlog ▸ h.1, hw ▸ h.2.1, h.2.2.trans hd⟩
  | held r => exact ⟨hlog ▸ h.1, hw ▸ h.2.1, fun id ex body hc => hlocked id r (h.2.2 id ex body hc)⟩
  | heldTag r tag =>
    exact ⟨hlog ▸ h.1, hw ▸ h.2.1, hd.subset h.2.2.1, fun id ex body hc => hlocked id r (h.2.2.2 id ex body hc)⟩
  | wrote r =>
    obtain ⟨hn, id, ex, body, tag, hc, ht, hl, hp, hr⟩ := h
    exact ⟨hlog ▸ hn, id, ex, body, tag, hc, hd.subset ht, hlocked id r hl, hw ▸ hp, hw ▸ hr⟩
  | committed => exact ⟨hlog ▸ h.1, fun ws hws => (h.2 ws (hlog ▸ hws)).trans hd⟩
  | failed d => exact ⟨hlog ▸ h.1, he d h.2.1, h.2.2⟩

section
variable {α : Type} {c d : Clients ι Row Env Io α}

theorem Locked.stays (ho : Orderly c) (hs : c.step machine i e = some d) (hj : j ≠ i) {id : Uuid} {r : UniformPgRow}
    (h : Locked rt j c.shared id r) : Locked rt j d.shared id r := by
  refine ⟨(locks_other hs hj).2 h.1, ?_⟩
  have hv := ho.locked_stays hs hj h.1 (by decide)
  rw [lookup, hv]; exact h.2

theorem Holds.stays (ho : Orderly c) (hs : c.step machine i e = some d) (hj : j ≠ i)
    (h : Holds rt call j (c.threads j).loc c.shared s) : Holds rt call j (c.threads j).loc d.shared s := by
  have hn := commits_other ho hs hj
  cases s with
  | adding rs => exact ⟨hn ▸ h.1, h.2⟩
  | addTag rs tag => exact ⟨hn ▸ h.1, h.2⟩
  | held r => exact ⟨hn ▸ h.1, h.2.1, fun id ex body hc => (h.2.2 id ex body hc).stays ho hs hj⟩
  | heldTag r tag => exact ⟨hn ▸ h.1, h.2.1, h.2.2.1, fun id ex body hc => (h.2.2.2 id ex body hc).stays ho hs hj⟩
  | wrote r =>
    obtain ⟨hc, id, ex, body, tag, hcall, ht, hl, hp⟩ := h
    exact ⟨hn ▸ hc, id, ex, body, tag, hcall, ht, hl.stays ho hs hj, hp⟩
  | committed =>
    refine ⟨hn ▸ h.1, fun ws hws => h.2 ws ?_⟩
    rcases ho.log_cases hs with ⟨-, hlog⟩ | ⟨ws', -, hlog, -⟩
    · rw [hlog] at hws; exact hws
    · rw [hlog] at hws
      rcases List.mem_append.1 hws with hws | hws
      · exact hws
      · cases List.mem_singleton.1 hws
        exact absurd rfl hj
  | failed d => exact ⟨hn ▸ h.1, h.2⟩

end

omit [DecidableEq ι] in
theorem draws_mono {x} (h : c'.hist = conn.hist ++ [x]) : (draws conn).Sublist (draws c') := by
  rw [draws, draws, h, List.filterMap_append]
  exact List.sublist_append_left _ _

omit [DecidableEq ι] in
theorem draws_draw {tag : ETag} (h : c'.hist = conn.hist ++ [⟨.outer .newEtag, tag⟩]) : draws c' = draws conn ++ [tag] := by
  rw [draws, draws, h, List.filterMap_append]; rfl

omit [DecidableEq ι] in
theorem errors_mono {x} (h : c'.hist = conn.hist ++ [x]) : ∀ d ∈ errors conn, d ∈ errors c' := by
  intro d hd
  rw [errors, h, List.filterMap_append]
  exact List.mem_append_left _ hd

omit [DecidableEq ι] in
theorem errors_last {x} {d : DbError Key Uniq} (h : c'.hist = conn.hist ++ [x]) (hx : erred x = some d) : d ∈ errors c' := by
  rw [errors, h, List.filterMap_append]
  exact List.mem_append_right _ (by simp [hx])

theorem Holds.uncommitted (h : Holds rt call i conn sv s) (hs : s ≠ .committed) : commits i sv.log = 0 := by
  cases s with
  | committed => exact absurd rfl hs
  | _ => exact h.1

/-- A move that moves nothing but the history. -/
theorem Holds.after (h : Holds rt call i conn sv s) {x} (hw : c'.writes = conn.writes) (hx : c'.hist = conn.hist ++ [x])
    (hlocks : ∀ l ∈ sv.locks, l ∈ sv'.locks) (hdb : sv'.db = sv.db) (hlog : sv'.log = sv.log) :
    Holds rt call i c' sv' s := h.same hw (draws_mono hx) (errors_mono hx) hdb hlog hlocks

section
variable {id : Uuid} {r : UniformPgRow} {u : UniformRow} {author : Option PseudoId} {tag : ETag} {env : Env}
  {snap alive cur rows : Db} {ws : List (Write Row Key)}

/-- A locked row that is in sight is the one that the UPDATE of its id meets. -/
theorem hits_locked (hu : KeysUnique cur) (hl : lookup (.uniform rt id) cur = some (.uniform rt r))
    (halive : Row.uniform rt r ∈ alive) : hits ((uniformT rt).is (byId id)) alive cur = [.uniform rt r] := by
  have hid : ∀ x : UniformPgRow, byId id x = true → key ((uniformT rt).put x) = Key.uniform rt id := by
    intro x hx
    have hxid : x.id = id := by simpa [byId] using hx
    rw [← hxid]; rfl
  obtain ⟨hmem, hkey⟩ := lookup_mem hl
  have hr : byId id r = true := by
    have hrid : Key.uniform rt r.id = Key.uniform rt id := hkey
    simpa [byId] using hrid
  exact hits_one (T := uniformT rt) hu hid hr hmem halive

/-- The UPDATE of a patch writes the locked version patched. -/
theorem update_locked (hh : hits ((uniformT rt).is (byId id)) alive cur = [.uniform rt r])
    (h : ((updateSql rt id u author tag).run env snap alive cur).result = .ok (rows, ws)) :
    rows = [.uniform rt (setPatched u author tag env r)] ∧ ws = [.update (.uniform rt (setPatched u author tag env r))] ∧
      check (Row.uniform rt (setPatched u author tag env r)) = true := by
  obtain ⟨hrows, rfl, hck⟩ := update_ok h
  obtain rfl : rows = [.uniform rt (setPatched u author tag env r)] := by
    rw [hrows, hh]
    exact congrArg (List.map fun t => (uniformT rt).put (setPatched u author tag env t)) ((uniformT rt).rows_map_put [r])
  exact ⟨rfl, rfl, hck _ (by simp)⟩

/-- It refuses no author but one that is not a pseudonym. -/
theorem update_refused (hh : hits ((uniformT rt).is (byId id)) alive cur = [.uniform rt r]) {err : DbError Key Uniq}
    (h : ((updateSql rt id u author tag).run env snap alive cur).result = .error err) :
    check (Row.uniform rt (setPatched u author tag env r)) = false := by
  simp only [updateSql, Table.update, Stmt.run, hh] at h
  split at h
  · cases h
  · next hck => simpa [Table.setter, uniformT, Table.lift] using hck

end

theorem Named.check {r : UniformPgRow} (hr : Reads r) {u : UniformRow} {body : PatchInput} (hb : Named body) {tag : ETag}
    {env : Env} : check (Row.uniform rt (setPatched u body.authorUserPseudoId tag env r)) = true := by
  show ((body.authorUserPseudoId.map (·.raw)).or r.authorUserPseudoId).all isValidPseudoId = true
  cases ha : body.authorUserPseudoId with
  | none => exact (reads_iff.1 hr).2
  | some p => simpa [Named, ha] using hb

omit [DecidableEq ι] in
/-- A row locked by a client is in its sight. -/
theorem Locked.alive {id : Uuid} {r : UniformPgRow} (h : Locked rt i sv id r) {snap : Snapshot Row}
    (hok : SnapshotOk i snap sv) : Row.uniform rt r ∈ sv.alive snap := by
  obtain ⟨hmem, hkey⟩ := lookup_mem h.2
  have hv := hok.alive_versions h.1 (m := .update) (by decide)
  exact (mem_versions.1 (hv ▸ mem_versions.2 ⟨hmem, hkey⟩)).1

/-- The statement was refused. -/
theorem Holds.refused (hu : ∀ t, conn.tx = some t → KeysUnique (applyAll t.writes sv.db))
    (hsnap : ∀ snap, conn.snap = some snap → SnapshotOk i snap sv) (h : Holds rt call i conn sv s) {q : Sql}
    {err : DbError Key Uniq} (hm : (protocol rt (call i)).may s (.query .tx q))
    (hx : machine.exec i e conn sv (.query .tx q) = some (some (.error err), c', sv')) {id : Uuid} {ex : Option ETag}
    {body : PatchInput} (hcall : call i = .patch id ex body) (hbody : Named body) : err = .failure := by
  rcases query_tx_error hx with ⟨rfl, -⟩ | ⟨t, snap, ht, hs, hres⟩
  · rfl
  · cases q with
    | select q | forUpdate q => cases hres
    | insert mk =>
      have hpatch := hm.1
      rw [hcall] at hpatch
      cases hpatch
    | update q set =>
      obtain ⟨x, tag, u, id', ex', body', rfl, hcall', hread, -, hq⟩ := hm
      obtain ⟨rfl, rfl, rfl⟩ : id' = id ∧ ex' = ex ∧ body' = body := by
        rw [hcall] at hcall'
        cases hcall'
        exact ⟨rfl, rfl, rfl⟩
      have hw : t.writes = [] := by simpa [Client.writes, ht] using h.2.1
      have hl := h.2.2.2 id' ex' body' hcall
      rw [hq, hw] at hres
      have hh := hits_locked (by simpa [hw] using hu t ht) hl.2 (hl.alive (hsnap snap hs))
      have hck := update_refused hh hres
      rw [hbody.check ⟨u, hread⟩] at hck
      cases hck
    | delete q => exact hm.elim

/-- The row is locked, if it is there. -/
theorem Holds.locks {t : Tx Row Key Env} (ht : conn.tx = some t) (hu : KeysUnique (applyAll t.writes sv.db))
    (hreads : ∀ r, .uniform rt r ∈ sv.db → Reads r) (h : Holds rt call i conn sv (.adding [])) {id : Uuid} {ex : Option ETag}
    {body : PatchInput} (hcall : call i = .patch id ex body) {env : Env} {snap alive rows : Db} {ws : List (Write Row Key)}
    (hres : ((lockSql rt id).run env snap alive (applyAll t.writes sv.db)).result = .ok (rows, ws))
    (hsv : sv' = { sv with locks :=
      ((lockSql rt id).run env snap alive (applyAll t.writes sv.db)).needs.map (i, ·) ++ sv.locks }) {x} (hx : ((uniformT rt).rows rows).head? = some x)
    (hw : c'.writes = []) : Reads x ∧ Holds rt call i c' sv' (.held x) := by
  obtain ⟨hrows, rfl, hneeds⟩ := forUpdate_ok hres
  have htw : t.writes = [] := by simpa [Client.writes, ht] using h.2.1
  have hmem : Row.uniform rt x ∈ rows := (uniformT rt).mem_rows.1 (List.mem_of_mem_head? hx)
  obtain ⟨y, hy, hcur, hpy, -⟩ := (mem_hits (uniformT rt)).1 (hrows ▸ hmem)
  obtain rfl := (uniformT rt).put_inj hy
  have hid : x.id = id := by simpa [byId] using hpy
  have hkey : key ((uniformT rt).put x) = Key.uniform rt id := by rw [← hid]; rfl
  have hlook := hu.lookup_eq hcur
  rw [htw, applyAll_nil] at hlook hcur
  subst hsv
  refine ⟨hreads x hcur, h.1, hw, fun id' ex' body' hcall' => ?_⟩
  rw [hcall] at hcall'
  cases hcall'
  exact ⟨List.mem_append_left _ (List.mem_map.2 ⟨_, hneeds _ hmem, hkey ▸ rfl⟩), hkey ▸ hlook⟩

/-- The locked row is updated. -/
theorem Holds.patches {t : Tx Row Key Env} (ht : conn.tx = some t) (hu : KeysUnique (applyAll t.writes sv.db))
    {snap : Snapshot Row} (hok : SnapshotOk i snap sv) {x : UniformPgRow} {tag : ETag}
    (h : Holds rt call i conn sv (.heldTag x tag)) {u : UniformRow} (hread : rowFromPg x = .ok u) {id : Uuid}
    {ex : Option ETag} {body : PatchInput} (hcall : call i = .patch id ex body) (hmatch : Matches ex x) {view : Db} {env : Env}
    {rows : Db} {ws : List (Write Row Key)}
    (hres : ((updateSql rt id (applyPatch rt body u) body.authorUserPseudoId tag).run env view
      (applyAll t.writes (sv.alive snap)) (applyAll t.writes sv.db)).result = .ok (rows, ws))
    {ls : List (ι × Need Key Uniq)} (hsv : sv' = { sv with locks := ls ++ sv.locks })
    (hd : (draws conn).Sublist (draws c')) (hw : c'.writes = t.writes ++ ws) :
    ∃ r', ((uniformT rt).rows rows).head? = some r' ∧ Reads r' ∧ Holds rt call i c' sv' (.wrote x) := by
  have htw : t.writes = [] := by simpa [Client.writes, ht] using h.2.1
  have hl := h.2.2.2 id ex body hcall
  rw [htw, applyAll_nil] at hres hu
  obtain ⟨rfl, rfl, hck⟩ := update_locked (hits_locked hu hl.2 (hl.alive hok)) hres
  have hr := Reads.patched ⟨u, hread⟩ hck
  have hput := (uniformT rt).rows_map_put [setPatched (applyPatch rt body u) body.authorUserPseudoId tag env x]
  rw [htw, List.nil_append] at hw
  subst hsv
  refine ⟨_, congrArg List.head? hput, hr, h.1, id, ex, body, tag, hcall, hd.subset h.2.2.1,
    ⟨List.mem_append_right _ hl.1, hl.2⟩, ⟨u, env, hread, hmatch, hw⟩, fun r' hr' => ?_⟩
  rw [hw, List.mem_singleton] at hr'
  cases hr'
  exact hr

theorem Holds.query_tx (hu : ∀ t, conn.tx = some t → KeysUnique (applyAll t.writes sv.db))
    (hsnap : ∀ snap, conn.snap = some snap → SnapshotOk i snap sv)
    (hreads : ∀ r, .uniform rt r ∈ sv.db → Reads r) (h : Holds rt call i conn sv s) {q : Sql}
    {r : Answer (.query .tx q : Operation)} (hm : (protocol rt (call i)).may s (.query .tx q))
    (hx : machine.exec i e conn sv (.query .tx q) = some (some r, c', sv')) :
    ∃ t, (protocol rt (call i)).next s (.query .tx q) r t ∧ Holds rt call i c' sv' t ∧ sv'.log = sv.log := by
  have hhist := exec_hist hx
  rcases query_tx_done hx with ⟨err, rfl, rfl, rfl⟩ | ⟨t, snap, rows, ws, eff, ht, hs, -, heff, hres, -, rfl, rfl, rfl⟩
  · refine ⟨.failed err, by cases q <;> rfl, ⟨h.uncommitted ?_, errors_last hhist rfl, fun id ex body => ?_⟩, rfl⟩
    · rintro rfl
      cases q <;> simp_all [protocol]
    · exact h.refused hu hsnap hm hx
  · have hwrites : conn.writes = t.writes := by simp [Client.writes, ht]
    have hlocks : ∀ l ∈ sv.locks, l ∈ eff.needs.map (i, ·) ++ sv.locks := fun l hl => List.mem_append_right _ hl
    have same : ws = [] → Holds rt call i
        (Client.done { conn with tx := some { t with writes := t.writes ++ ws } } (.query .tx q) (.ok rows))
        { sv with locks := eff.needs.map (i, ·) ++ sv.locks } s := by
      rintro rfl
      exact h.after (by simp [Client.done, Client.writes, ht]) hhist hlocks rfl rfl
    cases q with
    | select q =>
      obtain rfl : [] = ws := by
        simp only [Stmt.run, ← heff, Except.ok.injEq, Prod.mk.injEq] at hres
        exact hres.2
      exact ⟨s, rfl, same rfl, rfl⟩
    | forUpdate q =>
      obtain ⟨rfl, id, ex, body, hcall, hq⟩ := hm
      have hws : ws = [] := by
        rw [← heff, hq] at hres
        exact (forUpdate_ok hres).2.1
      cases hhead : ((uniformT rt).rows rows).head? with
      | none => exact ⟨_, ⟨fun _ => rfl, fun m hm => by rw [hhead] at hm; cases hm⟩, same hws, rfl⟩
      | some x =>
        rw [hq] at heff
        subst heff
        have hc : (Client.done { conn with tx := some { t with writes := t.writes ++ ws } } (.query .tx (.forUpdate q))
            (.ok rows)).writes = [] := by
          rw [hws]
          simpa [Client.done, Client.writes, ← hwrites] using h.2.1
        obtain ⟨hr, hheld⟩ := h.locks ht (hu t ht) hreads hcall hres rfl hhead hc
        refine ⟨.held x, ⟨fun hno => (by rw [hhead] at hno; cases hno), fun y hy => ?_⟩, hheld, rfl⟩
        rw [hhead] at hy
        cases hy
        exact ⟨hr, rfl⟩
    | insert mk =>
      obtain ⟨-, rs, tag, sid, svc, inp, rfl, hq⟩ := hm
      rw [← heff, hq] at hres
      obtain ⟨row, hrow, _, _, _, rfl, rfl⟩ := insert_ok hres
      obtain rfl := Except.ok.inj hrow
      refine ⟨.adding (rs ++ [freshRow rt sid svc inp tag (StepEnv.within t.env e)]), fun rs' tag' x hst hx' => ?_,
        ⟨h.1, ?_, ?_⟩, rfl⟩
      · cases hst
        have hput := (uniformT rt).rows_map_put [freshRow rt sid svc inp tag (StepEnv.within t.env e)]
        rw [List.map_singleton] at hput
        rw [hput] at hx'
        cases hx'; rfl
      · have hrs : t.writes = rs.map (fun r => .insert (.uniform rt r)) := hwrites ▸ h.2.1
        simp [Client.done, Client.writes, hrs, uniformT]
      · rw [List.map_append]
        exact h.2.2.trans (draws_mono hhist)
    | update q set =>
      obtain ⟨x, tag, u, id, ex, body, rfl, hcall, hread, hmatch, hq⟩ := hm
      rw [← heff, hq] at hres
      obtain ⟨r', hr', hread', hwrote⟩ := h.patches ht (hu t ht) (hsnap snap hs) hread hcall hmatch hres rfl
        (draws_mono hhist) rfl
      refine ⟨.wrote x, fun r tag' hst => ?_, hwrote, rfl⟩
      cases hst
      exact ⟨r', hr', hread', rfl⟩
    | delete q => exact hm.elim

omit [DecidableEq ι] in
theorem writeTag_uniform {w : Write Row Key} {r : UniformPgRow} (h : w = .insert (.uniform rt r) ∨ w = .update (.uniform rt r)) :
    writeTag (etagOf rt) w = some (UniformPgRow.tag r) := by
  have hget : (uniformT rt).get (Row.uniform rt r) = some r := (uniformT rt).get_put r
  rcases h with rfl | rfl <;> simp [writeTag, etagOf, hget]

omit [DecidableEq ι] in
theorem tagsOf_map_insert (rs : List UniformPgRow) :
    tagsOf (etagOf rt) (rs.map fun r => (.insert (.uniform rt r) : Write Row Key)) = rs.map UniformPgRow.tag := by
  induction rs with
  | nil => rfl
  | cons r rs ih =>
    rw [List.map_cons, tagsOf, List.filterMap_cons_some (writeTag_uniform (.inl rfl))]
    exact congrArg _ ih

/-- A committed call is one log entry. -/
theorem Holds.committed_log {ws : List (Write Row Key)} (hn : commits i sv.log = 0) {d : List ETag}
    (hd : (tagsOf (etagOf rt) ws).Sublist d) :
    commits i (sv.log ++ [(i, ws)]) = 1 ∧ ∀ ws', (i, ws') ∈ sv.log ++ [(i, ws)] → (tagsOf (etagOf rt) ws').Sublist d := by
  refine ⟨by rw [commits_append, hn, if_pos rfl], fun ws' hws => ?_⟩
  rcases List.mem_append.1 hws with hws | hws
  · exact absurd hws (commits_eq_zero.1 hn ws')
  · cases List.mem_singleton.1 hws
    exact hd

theorem Holds.done (hu : ∀ t, conn.tx = some t → KeysUnique (applyAll t.writes sv.db))
    (hsnap : ∀ snap, conn.snap = some snap → SnapshotOk i snap sv)
    (hreads : ∀ r, .uniform rt r ∈ sv.db → Reads r) (h : Holds rt call i conn sv s) {o : Operation} {r : Answer o}
    (hm : (protocol rt (call i)).may s o) (hx : machine.exec i e conn sv o = some (some r, c', sv')) :
    ∃ t, (protocol rt (call i)).next s o r t ∧ Holds rt call i c' sv' t ∧
      (sv'.log = sv.log ∨ ∃ ws, sv'.log = sv.log ++ [(i, ws)] ∧ Commits rt call sv.db i ws) := by
  have hhist := exec_hist hx
  have hd := draws_mono hhist
  cases o with
  | query via q =>
    cases via with
    | tx =>
      obtain ⟨t, ht, hh, hlog⟩ := h.query_tx hu hsnap hreads hm hx
      exact ⟨t, ht, hh, .inl hlog⟩
    | pool =>
      obtain ⟨rfl, id, hcall, rfl⟩ := hm
      rcases query_pool_done hx with ⟨_, rfl, rfl, rfl⟩ | ⟨snap, rows, ws, eff, _, _, rfl, hres, _, rfl, rfl, rfl⟩
      · refine ⟨_, rfl, ⟨h.1, errors_last hhist rfl, fun id' ex body hc => ?_⟩, .inl rfl⟩
        rw [hcall] at hc; cases hc
      · obtain ⟨-, rfl⟩ := delete_ok hres
        have htags : ∀ dead : List Row, tagsOf (etagOf rt) (dead.map fun r => (.delete (key r) : Write Row Key)) = [] := by
          intro dead
          simp [tagsOf, writeTag]
        refine ⟨.committed, rfl, Holds.committed_log h.1 (by rw [htags]; exact List.nil_sublist _),
          .inr ⟨_, rfl, fun r hr => ?_, fun id' ex body hc => ?_⟩⟩
        · simp at hr
        · rw [hcall] at hc; cases hc
  | begin =>
    obtain rfl : s = .adding [] := hm
    rcases begin_done hx with ⟨err, rfl, rfl, rfl⟩ | ⟨rfl, rfl, rfl⟩
    · exact ⟨_, rfl, ⟨h.1, errors_last hhist rfl, fun _ _ _ _ _ => (begin_error hx).1⟩, .inl rfl⟩
    · exact ⟨_, rfl, ⟨h.1, rfl, List.nil_sublist _⟩, .inl rfl⟩
  | commit =>
    have hn : commits i sv.log = 0 := by
      rcases hm with ⟨x, rfl⟩ | ⟨rs, rfl, -⟩
      · exact h.1
      · exact h.1
    rcases commit_done hx with ⟨err, rfl, rfl, rfl⟩ | ⟨rfl, rfl, rfl⟩
    · exact ⟨_, rfl, ⟨hn, errors_last hhist rfl, fun _ _ _ _ _ => (commit_error hx).1⟩, .inl rfl⟩
    · rcases hm with ⟨x, rfl⟩ | ⟨rs, rfl, hcall, hrs⟩
      · obtain ⟨-, id, ex, body, tag, hc, ht, hl, hp, hr⟩ := h
        have htags : tagsOf (etagOf rt) conn.writes = [tag] := by
          obtain ⟨u, env, -, -, hw⟩ := hp
          rw [hw, tagsOf, List.filterMap_cons_some (writeTag_uniform (.inr rfl))]
          rfl
        refine ⟨.committed, rfl, Holds.committed_log hn (by
          rw [htags]; exact List.singleton_sublist.2 (hd.subset ht)), .inr ⟨conn.writes, rfl, fun r hr' => ?_, ?_⟩⟩
        · rcases hr' with hr' | hr'
          · obtain ⟨u, env, -, -, hw⟩ := hp
            rw [hw] at hr'
            cases List.mem_singleton.1 hr'
          · exact hr r hr'
        · intro id' ex' body' hc'
          rw [hc] at hc'
          cases hc'
          exact ⟨x, tag, hl.2, hp⟩
      · obtain ⟨-, hw, hds⟩ := h
        refine ⟨.committed, rfl, Holds.committed_log hn (by
          rw [hw, tagsOf_map_insert]; exact hds.trans hd), .inr ⟨conn.writes, rfl, fun r hr => ?_, ?_⟩⟩
        · rw [hw] at hr
          simp only [List.mem_map, Write.insert.injEq, Row.uniform.injEq, true_and, exists_eq_right, reduceCtorEq,
            and_false, exists_false, or_false] at hr
          exact hrs r hr
        · intro id ex body hc
          rw [hc] at hcall; cases hcall
  | rollback => exact hm.elim
  | outer x =>
    obtain ⟨rfl, hst⟩ := hm
    have hdraw := draws_draw hhist
    obtain ⟨-, rfl, rfl⟩ := outer_done hx
    rcases hst with ⟨x, rfl⟩ | ⟨rs, rfl⟩
    · refine ⟨.heldTag x r, ⟨fun y hy => (by cases hy; rfl), fun rs hrs => (by cases hrs)⟩, ⟨h.1, h.2.1, ?_, h.2.2⟩, .inl rfl⟩
      rw [hdraw]; simp
    · refine ⟨.addTag rs r, ⟨fun y hy => (by cases hy), fun rs' hrs => (by cases hrs; rfl)⟩, ⟨h.1, h.2.1, ?_⟩, .inl rfl⟩
      rw [hdraw]
      exact h.2.2.append (List.Sublist.refl _)

/-- A call that has returned drops its transaction, if it still has one. -/
theorem Holds.close {a : Except AppError Reply} (h : Holds rt call i conn sv s) (ha : Answers (call i) s a) :
    ∃ t, Answers (call i) t a ∧ Holds rt call i { conn with tx := none } (sv.release i) t := by
  by_cases hs : s = .committed
  · subst hs
    exact ⟨.committed, ha, h⟩
  · by_cases hf : ∃ d, s = .failed d
    · obtain ⟨d, rfl⟩ := hf
      exact ⟨.failed d, ha, h⟩
    · refine ⟨.adding [], ?_, h.uncommitted hs, rfl, List.nil_sublist _⟩
      cases a with
      | ok row => exact fun hp => absurd (ha hp) hs
      | error e =>
        refine fun hp => ⟨by simp, ?_⟩
        rcases (ha hp).2 with he | he | ⟨d, -, hd⟩
        · exact .inl he
        · exact .inr (.inl he)
        · exact absurd ⟨d, hd⟩ hf

end

/-! ## Fresh draws -/

section
variable {ι α : Type} [DecidableEq ι] {rt : ResourceTable} {db₀ : Db}

/-- The call's next operation is to draw an ETag. -/
def drawsNext (c : Clients ι Row Env Io α) (i : ι) : Bool :=
  match (c.threads i).prog with
  | .op (.outer .newEtag) _ => true
  | _ => false

/-- A drawn ETag was neither drawn before nor carried by a row at the start. -/
def FreshDraw (rt : ResourceTable) (db₀ : Db) (c : Clients ι Row Env Io α) (i : ι) (e : Env) : Prop :=
  drawsNext c i = true → (∀ j, e.etag ∉ draws (c.threads j).loc) ∧ ∀ r ∈ db₀, etagOf rt r ≠ some e.etag

/-- No ETag was drawn twice, or carried by a row at the start. -/
structure Distinct (rt : ResourceTable) (db₀ : Db) (c : Clients ι Row Env Io α) : Prop where
  own : ∀ i, (draws (c.threads i).loc).Nodup
  apart : ∀ i j, i ≠ j → ∀ tag ∈ draws (c.threads i).loc, tag ∉ draws (c.threads j).loc
  new : ∀ i, ∀ tag ∈ draws (c.threads i).loc, ¬Live (etagOf rt) tag db₀

theorem Distinct.step {c c' : Clients ι Row Env Io α} {i : ι} {e : Env} (h : Distinct rt db₀ c)
    (hg : FreshDraw rt db₀ c i e) (hs : c.step machine i e = some c') : Distinct rt db₀ c' := by
  have hother : ∀ j, j ≠ i → draws (c'.threads j).loc = draws (c.threads j).loc := fun j hj => by
    rw [(step_moved hs).2 j hj]
  have hself : draws (c'.threads i).loc = draws (c.threads i).loc ∨
      (draws (c'.threads i).loc = draws (c.threads i).loc ++ [e.etag] ∧ drawsNext c i = true) := by
    rcases step_hist hs with hh | ⟨o, k, r, hp, hx, hh⟩
    · exact .inl (by rw [draws, draws, hh])
    · by_cases ho : o = .outer .newEtag
      · subst ho
        obtain ⟨rfl, -⟩ := outer_done hx
        exact .inr ⟨draws_draw hh, by rw [drawsNext, hp]⟩
      · refine .inl ?_
        rw [draws, draws, hh, List.filterMap_append]
        cases o with
        | outer x => cases x <;> first | exact absurd rfl ho | simp
        | _ => simp
  rcases hself with hself | ⟨hself, hnext⟩
  · have hall : ∀ j, draws (c'.threads j).loc = draws (c.threads j).loc := fun j => by
      by_cases hj : j = i
      · rw [hj]; exact hself
      · exact hother j hj
    exact ⟨fun j => by rw [hall]; exact h.own j, fun j k hjk => by rw [hall, hall]; exact h.apart j k hjk,
      fun j => by rw [hall]; exact h.new j⟩
  · obtain ⟨hnew, hold⟩ := hg hnext
    refine ⟨fun j => ?_, fun j k hjk tag htag => ?_, fun j tag htag => ?_⟩
    · by_cases hj : j = i
      · subst hj
        rw [hself]
        refine List.nodup_append.2 ⟨h.own j, by simp, fun a ha b hb hab => ?_⟩
        rw [List.mem_singleton.1 hb] at hab
        exact hnew j (hab ▸ ha)
      · rw [hother j hj]; exact h.own j
    · by_cases hj : j = i
      · subst hj
        rw [hother k (Ne.symm hjk)]
        rw [hself] at htag
        rcases List.mem_append.1 htag with htag | htag
        · exact h.apart j k hjk tag htag
        · rw [List.mem_singleton.1 htag]; exact hnew k
      · rw [hother j hj] at htag
        by_cases hk : k = i
        · subst hk
          rw [hself, List.mem_append, List.mem_singleton]
          rintro (hk | rfl)
          · exact h.apart j k hjk tag htag hk
          · exact hnew j htag
        · rw [hother k hk]; exact h.apart j k hjk tag htag
    · have hlive : ¬Live (etagOf rt) e.etag db₀ := fun ⟨r, hr, ht⟩ => hold r hr ht
      by_cases hj : j = i
      · subst hj
        rw [hself] at htag
        rcases List.mem_append.1 htag with htag | htag
        · exact h.new j tag htag
        · rw [List.mem_singleton.1 htag]; exact hlive
      · rw [hother j hj] at htag; exact h.new j tag htag

end

/-! ## Runs -/

/-- The calls have arrived, none has begun. -/
def start {ι : Type} (rt : ResourceTable) (call : ι → Call) (sv : Sv ι) :
    Clients ι Row Env Io (Except AppError Reply) where
  threads i := { prog := ((call i).code rt).run, loc := {} }
  shared := sv

section
variable {ι : Type} [DecidableEq ι] {rt : ResourceTable} {call : ι → Call} {db₀ : Db} {i j : ι}
  {ws vs : List (Write Row Key)} {log pre post : List (ι × List (Write Row Key))}

/-- Clients that commit once, each writing ETags of its own draws, write
ETags never seen before. -/
theorem fresh_log {c : Clients ι Row Env Io (Except AppError Reply)} (hd : Distinct rt db₀ c)
    (honce : ∀ i, commits i log ≤ 1)
    (hdrawn : ∀ i ws, (i, ws) ∈ log → (tagsOf (etagOf rt) ws).Sublist (draws (c.threads i).loc)) :
    Fresh (etagOf rt) db₀ log := by
  rintro pre i ws post rfl
  have hi := hdrawn i ws (by simp)
  refine ⟨(hd.own i).sublist hi, fun t ht hseen => ?_⟩
  rcases hseen with hlive | ⟨⟨j, vs⟩, hj, htj⟩
  · exact hd.new i t (hi.subset ht) hlive
  · have hij : i ≠ j := by
      rintro rfl
      have h₁ : commits i pre ≠ 0 := fun h0 => commits_eq_zero.1 h0 vs hj
      have h₂ := honce i
      simp only [commits, List.map_append, List.map_cons, List.count_append, List.count_cons_self] at h₁ h₂
      omega
    exact hd.apart i j hij t (hi.subset ht) ((hdrawn j vs (by simp [hj])).subset htj)

omit [DecidableEq ι] in
/-- Once a patch has replaced the version that carried `e`, no row carries it. -/
theorem patched_not_live (hf : Fresh (etagOf rt) db₀ (pre ++ [(i, ws)])) (h₀ : SingleTags (etagOf rt) db₀)
    {id : Uuid} {e tag : ETag} {body : PatchInput} {r : UniformPgRow}
    (hl : lookup (.uniform rt id) (replay db₀ pre) = some (.uniform rt r)) (hp : Patches rt (some e) body r tag ws) :
    Live (etagOf rt) e (replay db₀ pre) ∧ ¬Live (etagOf rt) e (replay db₀ (pre ++ [(i, ws)])) := by
  obtain ⟨u, env, -, hm, rfl⟩ := hp
  obtain ⟨hmem, hkey⟩ := lookup_mem hl
  have htag : etagOf rt (.uniform rt r) = some e := by
    rw [hm e rfl]
    exact writeTag_uniform (.inl rfl)
  have hlive : Live (etagOf rt) e (replay db₀ pre) := ⟨_, hmem, htag⟩
  refine ⟨hlive, ?_⟩
  rw [replay_append]
  rintro ⟨x, hx, hxt⟩
  obtain ⟨y, hy, rfl⟩ := List.mem_map.1 hx
  split at hxt
  · refine hf.last.2 e (List.mem_filterMap.2 ⟨_, List.mem_singleton.2 rfl, hxt⟩) hlive.seen
  · next hne =>
    have : key y = key (Row.uniform rt r) := (hf.init.single h₀) y hy _ hmem e hxt htag
    exact hne this

omit [DecidableEq ι] in
/-- Two patches that expect one ETag do not both commit. -/
theorem not_both (hL : Logged (Commits rt call) db₀ log) (hf : Fresh (etagOf rt) db₀ log)
    (h₀ : SingleTags (etagOf rt) db₀) {id id' : Uuid} {e : ETag} {body body' : PatchInput}
    (hi : call i = .patch id (some e) body) (hj : call j = .patch id' (some e) body')
    (heq : log = pre ++ (i, ws) :: post) : (j, vs) ∉ post := by
  intro hmem
  obtain ⟨mid, rest, rfl⟩ := List.append_of_mem hmem
  have hpre : log = (pre ++ [(i, ws)] ++ mid) ++ (j, vs) :: rest := by rw [heq]; simp
  obtain ⟨r, tag, hl, hp⟩ := (hL _ _ _ _ heq).patched id _ body hi
  obtain ⟨r', tag', hl', hp'⟩ := (hL _ _ _ _ hpre).patched id' _ body' hj
  have hfi : Fresh (etagOf rt) db₀ (pre ++ [(i, ws)] ++ mid) := (hpre ▸ hf).init
  obtain ⟨hlive, hgone⟩ := patched_not_live hfi.init h₀ hl hp
  refine hfi.retired hlive.seen.append hgone ?_
  obtain ⟨u, env, -, hm, -⟩ := hp'
  refine ⟨_, (lookup_mem hl').1, ?_⟩
  rw [hm e rfl]
  exact writeTag_uniform (.inl rfl)

/-- Of the patches that expect one ETag at most one commits. -/
theorem one_commits (hL : Logged (Commits rt call) db₀ log) (hf : Fresh (etagOf rt) db₀ log)
    (h₀ : SingleTags (etagOf rt) db₀) {id id' : Uuid} {e : ETag} {body body' : PatchInput}
    (hi : call i = .patch id (some e) body) (hj : call j = .patch id' (some e) body') (hni : commits i log ≠ 0)
    (hnj : commits j log ≠ 0) : i = j := by
  have entry : ∀ k, commits k log ≠ 0 → ∃ ws, (k, ws) ∈ log := by
    intro k hk
    by_contra hno
    exact hk (commits_eq_zero.2 fun ws hws => hno ⟨ws, hws⟩)
  obtain ⟨ws, hws⟩ := entry i hni
  obtain ⟨vs, hvs⟩ := entry j hnj
  obtain ⟨pre, post, heq⟩ := List.append_of_mem hws
  rw [heq, List.mem_append, List.mem_cons] at hvs
  rcases hvs with hvs | hvs | hvs
  · obtain ⟨pre', mid, rfl⟩ := List.append_of_mem hvs
    have heq' : log = pre' ++ (j, vs) :: (mid ++ (i, ws) :: post) := by rw [heq]; simp
    exact absurd (show (i, ws) ∈ mid ++ (i, ws) :: post by simp) (not_both hL hf h₀ hj hi heq')
  · cases hvs
    rfl
  · exact absurd hvs (not_both hL hf h₀ hi hj heq)

/-- Whatever the interleaving of bulk inserts, patches and deletes: a patch
that commits replaces the version that was there when it committed, with its
body applied, and that version carries the expected ETag; of all patches that
expect one ETag at most one commits; a patch commits exactly when it succeeds,
and otherwise writes nothing and, where its body names no author or a
pseudonym, is refused with a failed precondition, a missing row, or because
the server failed one of its own operations. -/
theorem patches_lose_no_update (rt : ResourceTable) (call : ι → Call) (sv₀ : Sv ι) (hstart : sv₀.Quiescent)
    (hreads : ∀ r, .uniform rt r ∈ sv₀.db → Reads r) (htags : SingleTags (etagOf rt) sv₀.db)
    {c : Clients ι Row Env Io (Except AppError Reply)}
    (h : Run machine (FreshDraw rt sv₀.db) (start rt call sv₀) c) :
    (∀ pre i ws post id expected body, c.shared.log = pre ++ (i, ws) :: post → call i = .patch id expected body →
      ∃ r tag, lookup (.uniform rt id) (replay sv₀.db pre) = some (.uniform rt r) ∧ Patches rt expected body r tag ws) ∧
    (∀ i j id id' e body body', call i = .patch id (some e) body → call j = .patch id' (some e) body' →
      commits i c.shared.log ≠ 0 → commits j c.shared.log ≠ 0 → i = j) ∧
    (∀ i id expected body row, call i = .patch id expected body → c.returned i = some (.ok row) →
      commits i c.shared.log = 1) ∧
    ∀ i id expected body err, call i = .patch id expected body → c.returned i = some (.error err) →
      commits i c.shared.log = 0 ∧ (Named body → Refused (c.threads i).loc err) := by
  have ho : Orderly (start rt call sv₀) := Orderly.start hstart
  obtain ⟨hL, g, hg⟩ := Run.clients (H := fun i s l sv => Holds rt call i l sv s) (G := fun _ => .adding [])
      (P := fun i => protocol rt (call i)) (Q := fun i => Answers (call i)) (φ := Commits rt call)
      hstart.log ho (fun i => ⟨by simp [start, hstart.log, commits], rfl, List.nil_sublist _⟩)
      (fun i => code_follows (call i))
      (fun c c' i j e s ho _ hs hj _ hH => Holds.stays ho hs hj hH)
      (fun i s l sv hH _ => Holds.same hH rfl (List.Sublist.refl _) (fun _ hd => hd) rfl rfl (fun _ hl => hl))
      (fun c i e o k r l sv s ho hdb hL _ _ hm hH hx =>
        Holds.done (ho.view i) (ho.snapshot i) (hdb ▸ reads_replay hL hreads) hH hm hx)
      (fun i s a l sv hH hQ => Holds.close hH hQ) h
  have hdist : Distinct rt sv₀.db c := by
    refine Run.invariant (Distinct rt sv₀.db) ⟨fun i => ?_, fun i j _ t ht => ?_, fun i t ht => ?_⟩
      (fun c i e c' _ hd hg hs => hd.step hg hs) h
    · exact List.nodup_nil
    · cases ht
    · cases ht
  have hcommits : ∀ i, (g i = .committed ∧ commits i c.shared.log = 1) ∨ (g i ≠ .committed ∧ commits i c.shared.log = 0) := by
    intro i
    have hH := (hg i).1
    cases hgi : g i with
    | committed => rw [hgi] at hH; exact .inl ⟨rfl, hH.1⟩
    | _ => rw [hgi] at hH; exact .inr ⟨by simp, hH.1⟩
  have hdrawn : ∀ i ws, (i, ws) ∈ c.shared.log → (tagsOf (etagOf rt) ws).Sublist (draws (c.threads i).loc) := by
    intro i ws hws
    rcases hcommits i with ⟨hgi, -⟩ | ⟨-, hn⟩
    · have hH := (hg i).1
      rw [hgi] at hH
      exact hH.2 ws hws
    · exact absurd hws (commits_eq_zero.1 hn ws)
  have hfresh : Fresh (etagOf rt) sv₀.db c.shared.log :=
    fresh_log hdist (fun i => by rcases hcommits i with ⟨-, hn⟩ | ⟨-, hn⟩ <;> omega) hdrawn
  have hanswers : ∀ i a, c.returned i = some a → Answers (call i) (g i) a := by
    intro i a ha
    have hF := (hg i).2
    rw [Config.returned_iff.1 ha] at hF
    exact hF
  refine ⟨fun pre i ws post id ex body hlog hc => (hL pre i ws post hlog).patched id ex body hc, ?_, ?_, ?_⟩
  · exact fun i j id id' e body body' hi hj hni hnj => one_commits hL hfresh htags hi hj hni hnj
  · intro i id ex body row hc hr
    have hs : g i = .committed := hanswers i _ hr (by rw [hc]; rfl)
    rcases hcommits i with ⟨-, hn⟩ | ⟨hne, -⟩
    · exact hn
    · exact absurd hs hne
  · intro i id ex body err hc hr
    obtain ⟨hs, hanswer⟩ := hanswers i _ hr (by rw [hc]; rfl)
    rcases hcommits i with ⟨hgi, -⟩ | ⟨-, hn⟩
    · exact absurd hgi hs
    · refine ⟨hn, fun hbody => ?_⟩
      rcases hanswer with he | he | ⟨d, rfl, hgi⟩
      · exact .inl he
      · exact .inr (.inl he)
      · have hH := (hg i).1
        rw [hgi] at hH
        obtain rfl := hH.2.2 id ex body hc hbody
        exact .inr (.inr ⟨rfl, hH.2.1⟩)

end

/-! ### Evaluated runs -/

instance {n : Nat} {α : Type} (rt : ResourceTable) (db₀ : Db) (c : Clients (Fin n) Row Env Io α) (i : Fin n) (e : Env) :
    Decidable (FreshDraw rt db₀ c i e) :=
  inferInstanceAs (Decidable (_ → (∀ j, e.etag ∉ draws (c.threads j).loc) ∧ ∀ r ∈ db₀, etagOf rt r ≠ some e.etag))

/-- A segment with the ETag `etag-0`. -/
def sampleSegment : UniformPgRow :=
  freshRow .segments Sample.sessionId "bot" { clientId := "c", startMs := 0, endMs := 1, text := some "hi" } ⟨"etag-0"⟩ (Sample.env 0)

def sampleDb : Db := [.session Sample.session, .uniform .segments sampleSegment]

/-- Two patches that expect the same ETag. -/
def sampleCalls : Fin 2 → Call
  | 0 => .patch sampleSegment.id (some ⟨"etag-0"⟩) { text := some "one" }
  | 1 => .patch sampleSegment.id (some ⟨"etag-0"⟩) { text := some "two" }

theorem patches_lose_no_update_sample : ∃ c : Clients (Fin 2) Row Env Io (Except AppError Reply),
    errorOf (c.returned 1) = some (.preconditionFailed ⟨"etag-6"⟩) ∧ commits 1 c.shared.log = 0 ∧
      Refused (c.threads 1).loc (.preconditionFailed ⟨"etag-6"⟩) := by
  have hrun : ((start .segments sampleCalls (Sample.server sampleDb)).play machine
      (Sample.moves 1 [(0, 3), (1, 2), (0, 4), (1, 1)])).map (fun c => errorOf (c.returned 1)) =
        some (some (.preconditionFailed ⟨"etag-6"⟩)) := by decide +kernel
  have hguard : (start .segments sampleCalls (Sample.server sampleDb)).Guarded machine (FreshDraw .segments sampleDb)
      (Sample.moves 1 [(0, 3), (1, 2), (0, 4), (1, 1)]) := by decide +kernel
  have hrow : ∀ r ∈ sampleDb, ∀ t, etagOf .segments r = some t → r = .uniform .segments sampleSegment := by
    intro r hr t ht
    rcases List.mem_cons.1 hr with rfl | hr
    · cases ht
    · exact List.mem_singleton.1 hr
  have hreads : ∀ r, .uniform .segments r ∈ sampleDb → Reads r := by
    intro r hr
    cases hrow _ hr _ (writeTag_uniform (.inl rfl))
    exact ⟨_, rfl⟩
  have htags : SingleTags (etagOf .segments) sampleDb := by
    intro r hr r' hr' t ht ht'
    rw [hrow r hr t ht, hrow r' hr' t ht']
  obtain ⟨c, hc, herr⟩ := Option.map_eq_some_iff.1 hrun
  refine ⟨c, herr, ?_⟩
  obtain ⟨hn, hrefused⟩ := (patches_lose_no_update .segments sampleCalls (Sample.server sampleDb) ⟨by decide, rfl, rfl⟩
    hreads htags (Run.play hguard .nil hc)).2.2.2 1 _ _ _ _ rfl (errorOf_eq herr)
  exact ⟨hn, hrefused rfl⟩

/-- One patch, whose expected ETag is the current one. -/
def onePatch : Fin 1 → Call := fun _ => .patch sampleSegment.id (some ⟨"etag-0"⟩) { text := some "one" }

/-- The server fails it in its UPDATE. -/
theorem patch_failed_by_server : ∃ c : Clients (Fin 1) Row Env Io (Except AppError Reply),
    Run machine (FreshDraw .segments sampleDb) (start .segments onePatch (Sample.server sampleDb)) c ∧
    c.returned 0 = some (.error (.database .failure)) := by
  have hrun : ((start .segments onePatch (Sample.server sampleDb)).play machine
      (Sample.moves 1 [(0, 5)] ++ [(0, { Sample.env 6 with fails := true })])).map (fun c => errorOf (c.returned 0)) =
        some (some (.database .failure)) := by decide +kernel
  have hguard : (start .segments onePatch (Sample.server sampleDb)).Guarded machine (FreshDraw .segments sampleDb)
      (Sample.moves 1 [(0, 5)] ++ [(0, { Sample.env 6 with fails := true })]) := by decide +kernel
  obtain ⟨c, hc, herr⟩ := Option.map_eq_some_iff.1 hrun
  exact ⟨c, Run.play hguard .nil hc, errorOf_eq herr⟩

end DataApi.EtagHistory
