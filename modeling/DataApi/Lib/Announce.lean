/-
What a client may tell the outer world. `Told` is what a client knows from the
answers it got: what it has written, what of that is committed and on which
rows, and the rows it has seen. A client that tells the world only what it
knows (`telling`) tells it nothing that is not committed (`Run.announced`). What
a row that was seen says of the committed rows (`V`), and a write of its client
(`W`), is for the user to say: it has to outlast every later commit.
-/
import DataApi.Lib.RowInvariant

namespace Relational

variable {Row Key Uniq Env : Type} [Schema Row Key Uniq]

/-- The rows of an answer that are stored, and locked: what a locking read
returns, and what a DELETE returns of the rows it is about to remove. -/
def Stmt.found : Stmt Row Env → List Row → List Row
  | .forUpdate _, rows | .delete _, rows => rows
  | _, _ => []

theorem Stmt.run_found [DecidableEq Key] [DecidableEq Uniq] {q : Stmt Row Env} {env : Env} {snap alive cur rows : List Row}
    {ws : List (Write Row Key)} {r : Row} (h : (q.run env snap alive cur).result = .ok (rows, ws)) (hr : r ∈ q.found rows) :
    r ∈ cur ∧ (.row (key r), .update) ∈ (q.run env snap alive cur).needs := by
  cases q with
  | forUpdate p =>
    simp only [Stmt.run, Except.ok.injEq, Prod.mk.injEq] at h
    obtain ⟨rfl, -⟩ := h
    exact ⟨List.mem_of_mem_filter hr, List.mem_map.2 ⟨r, hr, rfl⟩⟩
  | delete p =>
    simp only [Stmt.run, Except.ok.injEq, Prod.mk.injEq] at h
    obtain ⟨rfl, -⟩ := h
    exact ⟨List.mem_of_mem_filter hr, List.mem_flatMap.2 ⟨r, dead_subset_cascade hr, List.mem_cons_self⟩⟩
  | select | insert | update => cases hr

end Relational

namespace ReadCommitted

open Resumption Relational

/-- What a client knows. `held` are rows its transaction has found stored,
before it wrote anything, and holds the locks of; with what it commits goes
what it knows of the rows it was committed on. -/
structure Told (Row Key : Type) where
  held : List Row := []
  pending : List (Write Row Key) := []
  done : List (List Row × List (Write Row Key)) := []
  seen : List Row := []

namespace Told

variable {Row Key : Type} (s : Told Row Key)

/-- After a statement. -/
def wrote (found rows : List Row) (ws : List (Write Row Key)) : Via → Told Row Key
  | .tx => { s with held := if s.pending.isEmpty then s.held ++ found else s.held, pending := s.pending ++ ws,
                    seen := s.seen ++ rows }
  | .pool => { s with done := s.done ++ [(found, ws)], seen := s.seen ++ rows }

/-- After a commit. -/
def committed : Told Row Key := { s with held := [], pending := [], done := s.done ++ [(s.held, s.pending)] }

/-- At the start of a transaction, or after one that came to nothing. -/
def reset : Told Row Key := { s with held := [], pending := [] }

variable {s} {found rows : List Row} {ws : List (Write Row Key)} {via : Via} {r : Row}

theorem mem_wrote_held (h : r ∈ s.held) : r ∈ (s.wrote found rows ws via).held := by
  cases via with
  | pool => exact h
  | tx =>
    simp only [wrote]
    split
    · exact List.mem_append_left _ h
    · exact h

theorem wrote_tx_held (h : r ∈ (s.wrote found rows ws .tx).held) : r ∈ s.held ∨ s.pending = [] ∧ r ∈ found := by
  simp only [wrote] at h
  split at h
  · next hempty => exact (List.mem_append.1 h).imp_right fun h => ⟨List.isEmpty_iff.1 hempty, h⟩
  · exact .inl h

theorem mem_wrote_done {d : List Row × List (Write Row Key)} (h : d ∈ s.done) : d ∈ (s.wrote found rows ws via).done := by
  cases via with
  | tx => exact h
  | pool => exact List.mem_append_left _ h

theorem wrote_last : (found, ws) ∈ (s.wrote found rows ws .pool).done := List.mem_append_right _ (List.mem_singleton.2 rfl)

theorem committed_last : (s.held, s.pending) ∈ s.committed.done := List.mem_append_right _ (List.mem_singleton.2 rfl)

@[simp] theorem reset_wrote_held : (s.reset.wrote found rows ws .tx).held = found := by simp [wrote, reset]
@[simp] theorem wrote_seen : (s.wrote found rows ws via).seen = s.seen ++ rows := by cases via <;> rfl
@[simp] theorem wrote_tx_pending : (s.wrote found rows ws .tx).pending = s.pending ++ ws := rfl
@[simp] theorem wrote_tx_done : (s.wrote found rows ws .tx).done = s.done := rfl
@[simp] theorem wrote_pool_done : (s.wrote found rows ws .pool).done = s.done ++ [(found, ws)] := rfl
@[simp] theorem committed_seen : s.committed.seen = s.seen := rfl
@[simp] theorem committed_done : s.committed.done = s.done ++ [(s.held, s.pending)] := rfl
@[simp] theorem reset_seen : s.reset.seen = s.seen := rfl

end Told

variable {ι Row Key Uniq Env X World α : Type} [Schema Row Key Uniq] [DecidableEq Key] [DecidableEq Uniq]
  [DecidableEq ι] [StepEnv Env] [Outer X World Env]

/-- `q` may answer `rows` and write `ws`. -/
def Ran (q : Stmt Row Env) (rows : List Row) (ws : List (Write Row Key)) : Prop :=
  ∃ env snap alive cur, (q.run env snap alive cur).result = .ok (rows, ws)

/-- The protocol of a client that sends statements of `S`, and does outside the
database what `A` allows it to with what it knows. -/
def telling (S : Told Row Key → Via → Stmt Row Env → Prop) (A : Told Row Key → X → Prop) :
    Protocol (@Answer Row Key Uniq Env X World _ _) (Told Row Key) where
  may s
    | .query via q => S s via q
    | .outer x => A s x
    | _ => True
  next s
    | .query via q, .ok rows, t => ∃ ws, Ran q rows ws ∧ t = s.wrote (Stmt.found q rows) rows ws via
    | .commit, .ok _, t => t = s.committed
    | .begin, .ok _, t | .commit, .error _, t | .rollback, _, t => t = s.reset
    | _, _, t => t = s

section
variable {S S' : Told Row Key → Via → Stmt Row Env → Prop} {A A' : Told Row Key → X → Prop} {s : Told Row Key}
  {Q : Told Row Key → α → Prop} {p : Prog (@Answer Row Key Uniq Env X World _ _) α}

omit [StepEnv Env] in
theorem telling_both (h : p.Follows (telling S A) Q s) (h' : p.Follows (telling S' A') (fun _ _ => True) s) :
    p.Follows (telling (fun s via q => S s via q ∧ S' s via q) A) Q s := by
  induction p generalizing s with
  | ret a => exact h
  | op o k ih =>
    refine ⟨?_, fun r t ht => ih r (h.2 r t ht) (h'.2 r t ht)⟩
    cases o with
    | query via q => exact ⟨h.1, h'.1⟩
    | _ => exact h.1

omit [StepEnv Env] in
theorem telling_mono (hS : ∀ s via q, S s via q → S' s via q) (h : p.Follows (telling S A) Q s) :
    p.Follows (telling S' A) Q s := by
  induction p generalizing s with
  | ret a => exact h
  | op o k ih =>
    refine ⟨?_, fun r t ht => ih r (h.2 r t ht)⟩
    cases o with
    | query via q => exact hS s via q h.1
    | _ => exact h.1

omit [StepEnv Env] in
/-- What the rows it has seen entitle a client to. -/
theorem telling_upheld {I : Told Row Key → Prop} (hI : ∀ s t, I s → (∀ r ∈ s.seen, r ∈ t.seen) → I t)
    (hS : ∀ s via q, I s → S s via q) (hs : I s) : p.Follows (telling S fun _ _ => True) (fun _ _ => True) s := by
  induction p generalizing s with
  | ret a => trivial
  | op o k ih =>
    refine ⟨?_, fun r t ht => ih r (hI s t hs fun x hx => ?_)⟩
    · cases o with
      | query via q => exact hS s via q hs
      | _ => trivial
    · cases o with
      | query via q =>
        cases r with
        | ok rows =>
          obtain ⟨ws, -, rfl⟩ := ht
          simp [hx]
        | error e => exact ht ▸ hx
      | begin | commit => cases r <;> exact ht ▸ hx
      | rollback | outer => exact ht ▸ hx

end

/-- The committed rows, and how they came about. -/
abbrev Past (ι Row Key : Type) : Type := List Row × List (ι × List (Write Row Key))

def Server.past (sv : Server ι Row Key Uniq World) : Past ι Row Key := (sv.db, sv.log)

/-- The row is stored, and client `i` has it locked. -/
def Server.Holds (sv : Server ι Row Key Uniq World) (i : ι) (r : Row) : Prop :=
  r ∈ sv.db ∧ (i, (.row (key r), .update)) ∈ sv.locks

/-- Client `i` has committed these writes, when these rows were stored. -/
def Made (db₀ : List Row) (log : List (ι × List (Write Row Key))) (i : ι) (d : List Row × List (Write Row Key)) : Prop :=
  ∃ pre post, log = pre ++ (i, d.2) :: post ∧ ∀ r ∈ d.1, r ∈ replay db₀ pre

/-- What the ghost state of `telling` says of a client. -/
structure Informed (V : Row → Prop) (W : Write Row Key → Prop) (db₀ : List Row) (i : ι) (s : Told Row Key)
    (c : Client Row Env X) (sv : Server ι Row Key Uniq World) : Prop where
  held : ∀ r ∈ s.held, sv.Holds i r
  pending : c.writes = s.pending
  marked : ∀ w ∈ s.pending, W w
  written : ∀ r, Written s.pending r → V r
  done : ∀ d ∈ s.done, Made db₀ sv.log i d
  seen : ∀ r ∈ s.seen, V r
  stored : ∀ r ∈ sv.db, V r
  snap : ∀ snap, c.snap = some snap → ∀ r ∈ snap.rows, V r

/-- What `telling` needs of the statements: they leave a mark on what they
write, and what they return says of the committed rows what `V` says. -/
structure Vouched (V : Row → Prop) (W : Write Row Key → Prop) (S : Told Row Key → Via → Stmt Row Env → Prop) : Prop where
  marks : ∀ s via q, S s via q → (∀ r ∈ s.seen, V r) → ∀ rows ws, Ran q rows ws → ∀ w ∈ ws, W w
  tx : ∀ s q, S s .tx q → q.Preserves V
  pool : ∀ s q, S s .pool q → q.Preserves V ∨ ∀ env snap alive db rows ws,
    (q.run env snap alive db).result = .ok (rows, ws) → ∀ r ∈ rows, r ∈ applyAll ws db

section
variable {guard : Clients ι Row Env X α → ι → Env → Prop} {c₀ c c' : Clients ι Row Env X α} {i j : ι} {e : Env}
  {V V' : Row → Prop} {W W' : Write Row Key → Prop} {S : Told Row Key → Via → Stmt Row Env → Prop}
  {A : Told Row Key → X → Prop} {s : Told Row Key} {l : Client Row Env X} {sv sv' : Server ι Row Key Uniq World}
  {db₀ : List Row}

section
variable {log : List (ι × List (Write Row Key))} {d : List Row × List (Write Row Key)} {r : Row}

omit [DecidableEq Uniq] [DecidableEq ι] in
theorem Made.mono {log' : List (ι × List (Write Row Key))} (h : Made db₀ log i d) (hlog : log <+: log') : Made db₀ log' i d := by
  obtain ⟨pre, post, rfl, hd⟩ := h
  obtain ⟨more, rfl⟩ := hlog
  exact ⟨pre, post ++ more, by simp, hd⟩

omit [DecidableEq Uniq] [DecidableEq ι] in
theorem Made.last {ws : List (Write Row Key)} {rows : List Row} (h : ∀ r ∈ rows, r ∈ replay db₀ log) :
    Made db₀ (log ++ [(i, ws)]) i (rows, ws) := ⟨log, [], rfl, h⟩

/-- No move of another client touches the row. -/
theorem Server.Holds.stays (h : Orderly c) (hs : c.step machine i e = some c') (hj : j ≠ i) (hr : c.shared.Holds j r) :
    c'.shared.Holds j r := by
  refine ⟨?_, (locks_other hs hj).2 hr.2⟩
  have hmem : r ∈ versions (key r) c.shared.db := mem_versions.2 ⟨hr.1, rfl⟩
  rw [← h.locked_stays hs hj hr.2 (by simp)] at hmem
  exact (mem_versions.1 hmem).1

omit [StepEnv Env] in
/-- Nor does what its own client commits outside the transaction. -/
theorem Server.Holds.apply {q : Stmt Row Env} {snap alive cur rows : List Row} {ws : List (Write Row Key)}
    (hr : sv.Holds i r) (hrun : (q.run e snap alive cur).result = .ok (rows, ws))
    (hfree : sv.blocks i .pool (q.run e snap alive cur).needs = false) : (sv.apply i ws).Holds i r := by
  refine ⟨?_, hr.2⟩
  have hmem : r ∈ versions (key r) sv.db := mem_versions.2 ⟨hr.1, rfl⟩
  have hother : ∀ w ∈ ws, w.key ≠ key r := by
    intro w hw hk
    obtain ⟨m, -, hm⟩ := ((Stmt.run_spec hrun).1 w hw).row
    have hconflict := blocks_eq_false.1 hfree _ hm _ hr.2 (.inl rfl) (by rw [hk])
    rw [conflicts_comm, conflicts_update] at hconflict
    cases hconflict
  rw [← versions_applyAll_other hother] at hmem
  exact (mem_versions.1 hmem).1

end

omit [DecidableEq Uniq] [DecidableEq ι] [StepEnv Env] in
/-- The server moves on. -/
theorem Informed.later (h : Informed V W db₀ i s l sv) (hlog : sv.log <+: sv'.log) (hV : ∀ r, V r → V' r)
    (hW : ∀ w, W w → W' w) (hstored : ∀ r ∈ sv'.db, V' r) (hheld : ∀ r, sv.Holds i r → sv'.Holds i r) :
    Informed V' W' db₀ i s l sv' where
  held r hr := hheld r (h.held r hr)
  pending := h.pending
  marked w hw := hW w (h.marked w hw)
  written r hr := hV r (h.written r hr)
  done d hd := (h.done d hd).mono hlog
  seen r hr := hV r (h.seen r hr)
  stored := hstored
  snap snap hs r hr := hV r (h.snap snap hs r hr)

omit [DecidableEq Uniq] [DecidableEq ι] [StepEnv Env] in
/-- The client's transaction ends, or begins. -/
theorem Informed.reset (h : Informed V W db₀ i s l sv) (l' : Client Row Env X) (hlog : sv.log <+: sv'.log)
    (hV : ∀ r, V r → V' r) (hstored : ∀ r ∈ sv'.db, V' r) (hw : l'.writes = [])
    (hsnap : ∀ snap, l'.snap = some snap → l.snap = some snap) : Informed V' W' db₀ i s.reset l' sv' where
  held r hr := by cases hr
  pending := hw
  marked w hw := by cases hw
  written r hr := by rcases hr with hr | hr <;> cases hr
  done d hd := (h.done d hd).mono hlog
  seen r hr := hV r (h.seen r hr)
  stored := hstored
  snap snap hs r hr := hV r (h.snap snap (hsnap snap hs) r hr)

/-- A statement of the transaction. -/
theorem Informed.done_tx (hS : Vouched V W S) (h : Informed V W db₀ i s l sv) {q : Stmt Row Env}
    {r : Answer (.query .tx q : Op Row Env X)} {l' : Client Row Env X} (hm : S s .tx q)
    (hx : machine.exec i e l sv (.query .tx q) = some (some r, l', sv')) (hV : ∀ r, V r → V' r) (hW : ∀ w, W w → W' w)
    (hstored : ∀ r ∈ sv'.db, V' r) :
    ∃ t, (telling S A).next s (.query .tx q) r t ∧ Informed V' W' db₀ i t l' sv' ∧ sv'.log = sv.log := by
  rcases query_tx_done hx with ⟨err, rfl, rfl, rfl⟩ | ⟨t, snap, rows, ws, eff, ht, hs, -, heff, hres, -, rfl, rfl, rfl⟩
  · have hlater : Informed V' W' db₀ i s l sv' := h.later (List.prefix_refl _) hV hW hstored fun _ hr => hr
    exact ⟨s, rfl, { hlater with snap := fun snap hs => by cases hs }, rfl⟩
  · subst heff
    have hpending : t.writes = s.pending := by simpa [Client.writes, ht] using h.pending
    have hview : ∀ db : List Row, (∀ r ∈ db, V r) → ∀ r ∈ applyAll t.writes db, V r :=
      fun db hdb => kept_applyAll hdb (hpending ▸ h.written)
    have hrows : ∀ r ∈ rows, V r := hS.tx s q hm _ _ _ _ _ _ (hview _ (h.snap snap hs)) (hview _ h.stored) hres
    refine ⟨s.wrote (q.found rows) rows ws .tx, ⟨ws, ⟨_, _, _, _, hres⟩, rfl⟩, ?_, rfl⟩
    refine ⟨fun r hr => ?_, ?_, fun w hw => hW w ?_, fun r hr => hV r ?_, h.done, fun r hr => hV r ?_, hstored,
      fun snap hs => by cases hs⟩
    · rcases Told.wrote_tx_held hr with hr | ⟨hnil, hr⟩
      · exact ⟨(h.held r hr).1, List.mem_append_right _ (h.held r hr).2⟩
      · obtain ⟨hmem, hlock⟩ := Stmt.run_found hres hr
        rw [hpending, hnil] at hmem
        exact ⟨hmem, List.mem_append_left _ (List.mem_map.2 ⟨_, hlock, rfl⟩)⟩
    · simp [Client.writes, Client.done, Told.wrote, hpending]
    · rcases List.mem_append.1 hw with hw | hw
      · exact h.marked w hw
      · exact hS.marks s .tx q hm h.seen rows ws ⟨_, _, _, _, hres⟩ w hw
    · rcases hr.append with hr | hr
      · exact h.written r hr
      · exact hrows r ((Stmt.run_written hres).1 r hr).1
    · rcases List.mem_append.1 hr with hr | hr
      · exact h.seen r hr
      · exact hrows r hr

/-- A statement of its own. -/
theorem Informed.done_pool (hS : Vouched V W S) (hdb : sv.db = replay db₀ sv.log) (h : Informed V W db₀ i s l sv)
    {q : Stmt Row Env} {r : Answer (.query .pool q : Op Row Env X)} {l' : Client Row Env X} (hm : S s .pool q)
    (hx : machine.exec i e l sv (.query .pool q) = some (some r, l', sv')) (hV : ∀ r, V r → V' r) (hW : ∀ w, W w → W' w)
    (hstored : ∀ r ∈ sv'.db, V' r) :
    ∃ t, (telling S A).next s (.query .pool q) r t ∧ Informed V' W' db₀ i t l' sv' ∧
      (sv'.log = sv.log ∨ ∃ ws, sv'.log = sv.log ++ [(i, ws)] ∧ ∀ w ∈ ws, W' w) := by
  rcases query_pool_done hx with ⟨err, rfl, rfl, rfl⟩ | ⟨snap, rows, ws, eff, hs, -, heff, hres, hfree, rfl, rfl, rfl⟩
  · have hlater : Informed V' W' db₀ i s l sv' := h.later (List.prefix_refl _) hV hW hstored fun _ hr => hr
    exact ⟨s, rfl, { hlater with snap := fun snap hs => by cases hs }, .inl rfl⟩
  · subst heff
    have hmarks : ∀ w ∈ ws, W' w := fun w hw => hW w (hS.marks s .pool q hm h.seen rows ws ⟨_, _, _, _, hres⟩ w hw)
    have hrows : ∀ r ∈ rows, V' r := by
      rcases hS.pool s q hm with hkept | hfresh
      · exact fun r hr => hV r (hkept _ _ _ _ _ _ (h.snap snap hs) h.stored hres r hr)
      · exact fun r hr => hstored r (hfresh _ _ _ _ _ _ hres r hr)
    refine ⟨s.wrote (q.found rows) rows ws .pool, ⟨ws, ⟨_, _, _, _, hres⟩, rfl⟩, ?_, .inr ⟨ws, rfl, hmarks⟩⟩
    refine ⟨fun r hr => (h.held r hr).apply hres hfree, h.pending, fun w hw => hW w (h.marked w hw),
      fun r hr => hV r (h.written r hr), fun d hd => ?_, fun r hr => ?_, hstored, fun snap hs => by cases hs⟩
    · rcases List.mem_append.1 hd with hd | hd
      · exact (h.done d hd).mono (List.prefix_append _ _)
      · obtain rfl := List.mem_singleton.1 hd
        exact Made.last fun r hr => hdb ▸ (Stmt.run_found hres hr).1
    · rcases List.mem_append.1 hr with hr | hr
      · exact hV r (h.seen r hr)
      · exact hrows r hr

theorem Informed.done_op (hS : Vouched V W S) (hdb : sv.db = replay db₀ sv.log) (h : Informed V W db₀ i s l sv)
    {o : Op Row Env X} {r : Answer o} {l' : Client Row Env X} (hm : (telling S A).may s o)
    (hx : machine.exec i e l sv o = some (some r, l', sv')) (hV : ∀ r, V r → V' r) (hW : ∀ w, W w → W' w)
    (hstored : ∀ r ∈ sv'.db, V' r) :
    ∃ t, (telling S A).next s o r t ∧ Informed V' W' db₀ i t l' sv' ∧
      (sv'.log = sv.log ∨ ∃ ws, sv'.log = sv.log ++ [(i, ws)] ∧ ∀ w ∈ ws, W' w) := by
  cases o with
  | query via q =>
    cases via with
    | tx =>
      obtain ⟨t, hn, hI, hlog⟩ := h.done_tx hS hm hx hV hW hstored
      exact ⟨t, hn, hI, .inl hlog⟩
    | pool => exact h.done_pool hS hdb hm hx hV hW hstored
  | begin =>
    rcases begin_done hx with ⟨_, rfl, rfl, rfl⟩ | ⟨rfl, rfl, rfl⟩
    · have hlater : Informed V' W' db₀ i s l sv' := h.later (List.prefix_refl _) hV hW hstored fun _ hr => hr
      exact ⟨s, rfl, { hlater with snap := fun snap hs => by cases hs }, .inl rfl⟩
    · exact ⟨s.reset, rfl, h.reset _ (List.prefix_refl _) hV hstored rfl (fun _ hs => by cases hs), .inl rfl⟩
  | commit =>
    rcases commit_done hx with ⟨_, rfl, rfl, rfl⟩ | ⟨rfl, rfl, rfl⟩
    · exact ⟨s.reset, rfl, h.reset _ (List.prefix_refl _) hV hstored rfl (fun _ hs => by cases hs), .inl rfl⟩
    · refine ⟨s.committed, rfl, ?_, .inr ⟨_, rfl, by rw [h.pending]; exact fun w hw => hW w (h.marked w hw)⟩⟩
      refine ⟨fun r hr => (by cases hr), rfl, fun w hw => (by cases hw), fun r hr => by (rcases hr with hr | hr <;> cases hr),
        fun d hd => ?_, fun r hr => hV r (h.seen r hr), hstored, fun snap hs => by cases hs⟩
      rcases List.mem_append.1 hd with hd | hd
      · exact (h.done d hd).mono (List.prefix_append _ _)
      · obtain rfl := List.mem_singleton.1 hd
        show Made db₀ (sv.log ++ [(i, l.writes)]) i (s.held, s.pending)
        rw [h.pending]
        exact Made.last fun r hr => hdb ▸ (h.held r hr).1
  | rollback =>
    obtain ⟨rfl, rfl⟩ := rollback_done hx
    exact ⟨s.reset, rfl, h.reset _ (List.prefix_refl _) hV hstored rfl (fun _ hs => by cases hs), .inl rfl⟩
  | outer x =>
    obtain ⟨rfl, rfl, rfl⟩ := outer_done hx
    have hlater : Informed V' W' db₀ i s l { sv with world := (Outer.act x e sv.world).2 } :=
      h.later (List.prefix_refl _) hV hW hstored fun _ hr => hr
    exact ⟨s, rfl, { hlater with snap := fun snap hs => by cases hs }, .inl rfl⟩

/-- Only an operation outside the database changes the world. -/
theorem world_kept {o : Op Row Env X} {r : Answer o} {l' : Client Row Env X} (ho : ∀ x, o ≠ .outer x)
    (hx : machine.exec i e l sv o = some (some r, l', sv')) : sv'.world = sv.world := by
  cases o with
  | query via q =>
    cases via with
    | tx => rcases query_tx_done hx with ⟨_, -, -, rfl⟩ | ⟨_, _, _, _, _, -, -, -, -, -, -, -, -, rfl⟩ <;> rfl
    | pool => rcases query_pool_done hx with ⟨_, -, -, rfl⟩ | ⟨_, _, _, _, -, -, -, -, -, -, -, rfl⟩ <;> rfl
  | begin => rcases begin_done hx with ⟨_, -, -, rfl⟩ | ⟨-, -, rfl⟩ <;> rfl
  | commit => rcases commit_done hx with ⟨_, -, -, rfl⟩ | ⟨-, -, rfl⟩ <;> rfl
  | rollback =>
    obtain ⟨-, rfl⟩ := rollback_done hx
    rfl
  | outer x => exact absurd rfl (ho x)

/-- What a move does to the world. -/
theorem Config.world_cases {c c' : Clients ι Row Env X α} (hs : c.step machine i e = some c') :
    c'.shared.world = c.shared.world ∨ ∃ x : X, c'.shared.world = (Outer.act x e c.shared.world).2 := by
  rcases Config.step_cases hs with ⟨a, l, sv, -, hc, rfl⟩ | ⟨o, k, r, l, sv, -, hx, rfl⟩
  · obtain ⟨-, rfl⟩ := close_done hc
    exact .inl rfl
  · cases r with
    | none =>
      obtain ⟨-, -, -, rfl⟩ := exec_inner hx
      exact .inl rfl
    | some r =>
      by_cases ho : ∃ x, o = .outer x
      · obtain ⟨x, rfl⟩ := ho
        obtain ⟨-, -, rfl⟩ := outer_done hx
        exact .inr ⟨x, rfl⟩
      · exact .inl (world_kept (fun x hx' => ho ⟨x, hx'⟩) hx)

/-- Clients that tell the world only what they know: what they commit bears
their mark, and `J` is true of the world, where it outlasts commits and where
a client that knows what `A` asks for keeps it. -/
theorem Run.announced {S : ι → Told Row Key → Via → Stmt Row Env → Prop} {A : Told Row Key → X → Prop}
    {V : Past ι Row Key → Row → Prop} {W : ι → Past ι Row Key → Write Row Key → Prop}
    {J : Server ι Row Key Uniq World → Prop} (hlog : c₀.shared.log = []) (h₀ : Orderly c₀)
    (start : ∀ i, (c₀.threads i).loc.tx = none ∧ (c₀.threads i).loc.snap = none)
    (hS : ∀ i p, Vouched (V p) (W i p) (S i))
    (hself : ∀ c, Run machine guard c₀ c → ∀ r ∈ c.shared.db, V c.shared.past r)
    (hlasts : ∀ c i e c', Run machine guard c₀ c → guard c i e → c.step machine i e = some c' →
      (∀ r, V c.shared.past r → V c'.shared.past r) ∧ ∀ j w, W j c.shared.past w → W j c'.shared.past w)
    (follows : ∀ i, (c₀.threads i).prog.Follows (telling (S i) A) (fun _ _ => True) {})
    (hJ : J c₀.shared)
    (hkeep : ∀ sv sv' : Server ι Row Key Uniq World, J sv → sv'.world = sv.world → sv.log <+: sv'.log →
      (∀ r, V sv.past r → V sv'.past r) → J sv')
    (htell : ∀ (sv : Server ι Row Key Uniq World) i s x e, J sv → A s x → (∀ d ∈ s.done, Made c₀.shared.db sv.log i d) →
      (∀ r ∈ s.seen, V sv.past r) → J { sv with world := (Outer.act x e sv.world).2 })
    (h : Run machine guard c₀ c) : J c.shared ∧ ∀ t ∈ c.shared.log, ∀ w ∈ t.2, W t.1 c.shared.past w := by
  -- What is known of the moves of the run goes into the guard.
  have hrun : Run machine (fun c i e => guard c i e ∧ ∀ c', c.step machine i e = some c' →
      (∀ r ∈ c'.shared.db, V c'.shared.past r) ∧ (∀ r, V c.shared.past r → V c'.shared.past r) ∧
        ∀ j w, W j c.shared.past w → W j c'.shared.past w) c₀ c := by
    induction h with
    | nil => exact .nil
    | move hr hg hs ih =>
      exact .move ih ⟨hg, fun c' hs' => ⟨hself c' (.move hr hg hs'), hlasts _ _ _ c' hr hg hs'⟩⟩ hs
  refine (Run.clientsWith (H := fun i s l sv => Informed (V sv.past) (W i sv.past) c₀.shared.db i s l sv)
    (K := fun _ c => J c.shared ∧ ∀ t ∈ c.shared.log, ∀ w ∈ t.2, W t.1 c.shared.past w) (R := fun _ _ => True)
    (φ := fun _ _ _ => True) hlog h₀ ?_ ⟨hJ, by rw [hlog]; simp⟩ follows ?_ ?_ ?_ ?_ ?_ ?_ ?_ hrun).2.elim
    fun _ hK => hK.1
  · intro i
    obtain ⟨htx, hsnap⟩ := start i
    refine ⟨by simp, by simp [Client.writes, htx], by simp, by simp [Written], by simp, by simp, hself c₀ .nil, fun snap hs => ?_⟩
    rw [hsnap] at hs
    cases hs
  · intro c c' i j e s hc hg hs hj _ hH
    obtain ⟨hstored, hV, hW⟩ := hg.2 c' hs
    exact hH.later (Config.log_grows hc hs) hV (hW j) hstored fun r hr => hr.stays hc hs hj
  · intro c i s _ _ hH hsnap
    refine { hH with snap := fun snap hs r hr => ?_ }
    cases hs
    exact hH.stored r hr
  · intro c i e o k r l sv s hc hdb _ hg hp hm hH hx
    obtain ⟨hstored, hV, hW⟩ := hg.2 _ (Config.step_op hp hx)
    obtain ⟨t, hn, hI, hl | ⟨ws, hl, -⟩⟩ := hH.done_op (hS i _) hdb hm hx hV (hW i) hstored
    · exact ⟨t, hn, hI, .inl hl⟩
    · exact ⟨t, hn, hI, .inr ⟨ws, hl, trivial⟩⟩
  · intro i s a l sv hH _
    exact ⟨s.reset, trivial, trivial,
      hH.reset { l with tx := none } (List.prefix_refl _) (fun _ hr => hr) hH.stored rfl fun _ hs => hs⟩
  · exact fun c g i e o k hJ _ _ _ _ => hJ
  · rintro c g i e o k r l sv t hc hdb - hH - ⟨hJ, hW₀⟩ hg hp hm hx - -
    have hs : c.step machine i e = some (c.put i ⟨k r, l⟩ sv) := Config.step_op hp hx
    obtain ⟨hstored, hV, hW⟩ := hg.2 _ hs
    refine ⟨?_, fun t ht w hw => ?_⟩
    · by_cases ho : ∃ x, o = .outer x
      · obtain ⟨x, rfl⟩ := ho
        obtain ⟨-, -, rfl⟩ := outer_done hx
        exact htell c.shared i (g i) x e hJ hm (hH i).done (hH i).seen
      · exact hkeep c.shared sv hJ (world_kept (fun x hx => ho ⟨x, hx⟩) hx) (Config.log_grows hc hs) hV
    · obtain ⟨-, -, -, hl | ⟨ws, hl, hmarks⟩⟩ := (hH i).done_op (hS i _) hdb hm hx hV (hW i) hstored
      · exact hW _ w (hW₀ t (hl ▸ ht) w hw)
      · have ht : t ∈ c.shared.log ++ [(i, ws)] := hl ▸ ht
        rcases List.mem_append.1 ht with ht | ht
        · exact hW _ w (hW₀ t ht w hw)
        · obtain rfl := List.mem_singleton.1 ht
          exact hmarks w hw
  · exact fun c g i e a t _ hK _ _ _ _ _ => ⟨hkeep c.shared _ hK.1 rfl (List.prefix_refl _) fun _ hr => hr, hK.2⟩

end
end ReadCommitted
