import CloudAccess.Proofs.Graph.Frames
import CloudAccess.Proofs.Reach.Search
import CloudAccess.Report

/-!
# What an engine keeps while the graph grows

An engine asks a graph that may still grow.  It reads the trust between principals and roles once,
when a question first needs it, and hands it on to the engines derived from it; all else it looks
up anew for each question.  A `Session` is a graph with its engines, and a `Call` changes the graph,
makes an engine or asks one a question.  For every engine of a session there is a moment, the
present one if it keeps nothing, such that

    its paths are those of a new engine that read the trust at that moment        (paths_of_run)

and those of a new engine outright unless the trust has changed since.  No call but one that records
trust, or a principal that is a role or replaces one, changes it (`Change.KeepsTrust`).

* `kept_of_step`, `dated_of_run`: what is kept was read by a question to an engine that kept
  nothing.
* `trust_of_change`, `trust_of_run`: which calls leave the trust as it is.
-/

namespace CloudAccess

open Condition (Evaluator)
open CloudAccess.Graph (Bounds)

/-! ## Definitions -/

/-- What adds to a graph. -/
inductive Change where
  | principal (P : Principal)
  | resource (R : Resource)
  | edge (owner : Identifier) (action : String) (deny : Bool) (e : Edge)
  | trust (trustor : String) (role : Identifier)
  | guardrail (d : Document)
  | identityPolicy (owner : Identifier) (d : Document)
  | trustPolicy (role : Identifier) (d : Document)
  | resourcePolicy (resource : Json) (d : Document)

/-- The graph after a change.  What cannot be recorded changes nothing; of the policy of a resource
what was added before a fault stays. -/
def Change.apply (g : Graph) : Change → Graph
  | principal P => (g.insertPrincipal P).toOption.getD g
  | resource R => (g.insertResource R).toOption.getD g
  | edge owner action deny e => g.insertEdge owner action deny e
  | trust trustor role => g.insertTrust trustor role
  | guardrail d => g.insertGuardrail d
  | identityPolicy owner d => (g.addIdentityPolicy owner d).1
  | trustPolicy role d => (g.addTrustPolicy role d).1
  | resourcePolicy r d => (g.addResourcePolicy r d).1

/-- A change that leaves the trust between principals and roles as it is: no trust is recorded, and
no principal that is a role or replaces one. -/
def Change.KeepsTrust (g : Graph) : Change → Prop
  | trust .. | trustPolicy .. => False
  | principal P => P.kind ≠ .role ∧
      ∀ id Q, Identifier.ofJson P.arn = .ok id → g.principal? id = some Q → Q.kind ≠ .role
  | _ => True

/-- What an engine can be asked. -/
inductive Question where
  | paths (source target : Identifier) (action : String) (b : Bounds)
  | trust
  | holders (resource : Json) (action : String)
  | publicResources
  | findings

/-- The viewpoint of an engine after a question; only two questions need the trust. -/
def Viewpoint.after (v : Viewpoint) (ev : Evaluator) (g : Graph) : Question → Viewpoint
  | .paths source target action b => (g.paths ev v source target action b).1
  | .trust => v.reading g
  | .holders .. | .publicResources | .findings => v

/-- A graph and the viewpoints of its engines, in the order in which they were made. -/
structure Session where
  graph : Graph
  views : List Viewpoint

inductive Call where
  | change (c : Change)
  | engine (c : Context)
  /-- An engine derived from the one at a place, for another context. -/
  | derive (i : Nat) (c : Context)
  | ask (i : Nat) (q : Question)

namespace Session

def step (ev : Evaluator) (s : Session) : Call → Session
  | .change c => { s with graph := c.apply s.graph }
  | .engine c => { s with views := s.views ++ [.ofContext c] }
  | .derive i c => { s with views := s.views ++ (s.views[i]?.map (·.withContext c)).toList }
  | .ask i q => { s with views := s.views.modify i fun v => v.after ev s.graph q }

def run (ev : Evaluator) (s : Session) (calls : List Call) : Session := calls.foldl (step ev) s

/-- A graph without engines. -/
def start (g : Graph) : Session := ⟨g, []⟩

/-- The paths that are found from a viewpoint in the graph as it stands. -/
def paths (ev : Evaluator) (s : Session) (v : Viewpoint) (source target : Identifier)
    (action : String) (b : Bounds) : Run QueryError (List Path) :=
  (s.graph.paths ev v source target action b).2

/-- No call changes the trust. -/
def Quiet (ev : Evaluator) (s : Session) : List Call → Prop
  | [] => True
  | call :: rest =>
    (∀ c, call = .change c → c.KeepsTrust s.graph) ∧ Quiet ev (step ev s call) rest

end Session

/-! ## The trust of a graph -/

section

variable {ε κ α β : Type} [BEq κ] {f : α → Except ε (List β)}

theorem flatten_mapM_cons (a : α) (l : List α) : ((a :: l).mapM f).map List.flatten =
    f a >>= fun bs => ((l.mapM f).map List.flatten).map (bs ++ ·) := by
  rw [List.mapM_cons]
  cases f a with
  | error e => rfl
  | ok bs => cases l.mapM f <;> rfl

/-- A value that gives nothing may be added, or take the place of one that gives nothing. -/
theorem flatten_mapM_insert {m : OrderedMap κ α} {k : κ} {a : α} (ha : f a = .ok [])
    (hold : ∀ b, m.get? k = some b → f b = .ok []) :
    ((m.insert k a).values.mapM f).map List.flatten = (m.values.mapM f).map List.flatten := by
  obtain ⟨entries⟩ := m
  unfold OrderedMap.insert OrderedMap.alter OrderedMap.values
  unfold OrderedMap.get? at hold
  induction entries with
  | nil =>
    rw [OrderedMap.alterEntries, List.map_singleton, flatten_mapM_cons, ha]
    rfl
  | cons entry rest ih =>
    obtain ⟨k', b⟩ := entry
    rw [OrderedMap.lookup] at hold
    rw [OrderedMap.alterEntries]
    by_cases hk : (k' == k) = true
    · rw [if_pos hk] at hold ⊢
      rw [List.map_cons, List.map_cons, flatten_mapM_cons, flatten_mapM_cons, ha, hold b rfl]
    · rw [if_neg hk] at hold ⊢
      rw [List.map_cons, List.map_cons, flatten_mapM_cons, flatten_mapM_cons, ih hold]

end

namespace TrustGraph

theorem edgesTo_of_not_role {P : Principal} (h : P.kind ≠ .role) (g : Graph) :
    edgesTo g P = .ok [] := by
  unfold edgesTo
  split
  · next hrole _ => exact absurd hrole h
  · rfl

theorem edgesTo_congr {g g' : Graph} (h : g'.trust = g.trust) : edgesTo g' = edgesTo g := by
  funext P
  unfold edgesTo Graph.trustors
  rw [h]

theorem ofGraph_eq (g : Graph) :
    ofGraph g = ((g.principals.values.mapM (edgesTo g)).map List.flatten).map mk := by
  unfold ofGraph
  cases g.principals.values.mapM (edgesTo g) <;> rfl

theorem ofGraph_congr {g g' : Graph} (hp : g'.principals = g.principals)
    (ht : g'.trust = g.trust) : ofGraph g' = ofGraph g := by
  rw [ofGraph_eq, ofGraph_eq, edgesTo_congr ht, hp]

/-- A principal that is no role and replaces none is not trusted. -/
theorem ofGraph_insert {g g' : Graph} {id : Identifier} {P : Principal}
    (hp : g'.principals = g.principals.insert id P) (ht : g'.trust = g.trust)
    (hkind : P.kind ≠ .role) (hold : ∀ Q, g.principal? id = some Q → Q.kind ≠ .role) :
    ofGraph g' = ofGraph g := by
  rw [ofGraph_eq, ofGraph_eq, edgesTo_congr ht, hp, flatten_mapM_insert
    (edgesTo_of_not_role hkind g) fun Q hQ => edgesTo_of_not_role (hold Q hQ) g]

theorem ofGraph_onlyGrants {g g' : Graph} (h : g.OnlyGrants g') : ofGraph g' = ofGraph g := by
  rcases h.principals with hp | ⟨hnone, hp⟩
  · exact ofGraph_congr hp h.trust
  · refine ofGraph_insert hp h.trust (by decide) fun Q hQ => ?_
    rw [hnone] at hQ
    cases hQ

end TrustGraph

/-- Changes that record no trust, and no role, leave the trust as it is. -/
theorem trust_of_change {g : Graph} {c : Change} (h : c.KeepsTrust g) :
    TrustGraph.ofGraph (c.apply g) = TrustGraph.ofGraph g := by
  cases c with
  | principal P =>
    obtain ⟨hkind, hold⟩ := h
    show TrustGraph.ofGraph ((g.insertPrincipal P).toOption.getD g) = _
    unfold Graph.insertPrincipal
    cases hid : Identifier.ofJson P.arn with
    | error f => rfl
    | ok id => exact TrustGraph.ofGraph_insert rfl rfl hkind fun Q => hold id Q hid
  | resource R =>
    show TrustGraph.ofGraph ((g.insertResource R).toOption.getD g) = _
    unfold Graph.insertResource
    cases Identifier.ofJson R.arn with
    | error f => rfl
    | ok id => exact TrustGraph.ofGraph_congr rfl rfl
  | edge owner action deny e =>
    exact TrustGraph.ofGraph_onlyGrants (.of_edges (.insertEdge g owner action deny e))
  | trust trustor role => exact h.elim
  | guardrail d => exact TrustGraph.ofGraph_congr rfl rfl
  | identityPolicy owner d =>
    exact TrustGraph.ofGraph_onlyGrants (.of_edges (.addIdentityPolicy g owner d))
  | trustPolicy role d => exact h.elim
  | resourcePolicy r d =>
    exact TrustGraph.ofGraph_onlyGrants (.addResourceStatements r d.statements g)

/-! ## Viewpoints -/

namespace Viewpoint

/-- Reading the trust does not change the context. -/
theorem context_reading (v : Viewpoint) (g : Graph) : (v.reading g).context = v.context := by
  unfold reading
  split <;> rfl

theorem trustOn_kept {v : Viewpoint} {t : TrustGraph} (h : v.kept = some t) (g : Graph) :
    v.trustOn g = .ok t := by
  unfold trustOn
  rw [h]

theorem trustOn_unread {v : Viewpoint} (h : v.kept = none) (g : Graph) :
    v.trustOn g = TrustGraph.ofGraph g := by
  unfold trustOn
  rw [h]

/-- What was read is seen ever after. -/
theorem trustOn_reading {v : Viewpoint} {g : Graph} {t : TrustGraph} (h : v.trustOn g = .ok t)
    (g' : Graph) : (v.reading g).trustOn g' = .ok t := by
  unfold reading
  rw [h]
  rfl

/-- Reading the trust does not change what is seen of the same graph. -/
theorem trustOn_reading_self (v : Viewpoint) (g : Graph) :
    (v.reading g).trustOn g = v.trustOn g := by
  cases h : v.trustOn g with
  | ok t => exact trustOn_reading h g
  | error f =>
    unfold reading
    rw [h]
    exact h

/-- A question leaves an engine as it is, or with the trust that it has read. -/
theorem after_eq (ev : Evaluator) (v : Viewpoint) (g : Graph) (q : Question) :
    v.after ev g q = v ∨ v.after ev g q = v.reading g := by
  cases q with
  | paths source target action b =>
    dsimp only [after, Graph.paths]
    split
    · exact .inl rfl
    · exact .inl rfl
    · dsimp only
      split
      · exact .inr rfl
      · exact .inl rfl
  | trust => exact .inr rfl
  | holders resource action => exact .inl rfl
  | publicResources => exact .inl rfl
  | findings => exact .inl rfl

/-- What an engine keeps after a question it kept before, or it is the trust of the graph. -/
theorem kept_of_after {ev : Evaluator} {v : Viewpoint} {g : Graph} {q : Question} {t : TrustGraph}
    (h : (v.after ev g q).kept = some t) :
    v.kept = some t ∨ (v.kept = none ∧ TrustGraph.ofGraph g = .ok t) := by
  rcases after_eq ev v g q with he | he
  · exact .inl (he ▸ h)
  · rw [he] at h
    unfold reading trustOn at h
    cases hkept : v.kept with
    | some t' =>
      rw [hkept] at h
      exact .inl h
    | none =>
      rw [hkept] at h
      cases hread : TrustGraph.ofGraph g with
      | error f =>
        rw [hread] at h
        cases hkept.symm.trans h
      | ok t' =>
        rw [hread] at h
        exact .inr ⟨rfl, congrArg Except.ok (Option.some.inj h)⟩

end Viewpoint

namespace Session

variable {ev : Evaluator}

theorem run_append (s : Session) (calls more : List Call) :
    run ev s (calls ++ more) = run ev (run ev s calls) more :=
  List.foldl_append

/-- Only changes touch the graph. -/
theorem graph_of_step (ev : Evaluator) (s : Session) (call : Call) :
    (∃ c, call = .change c ∧ (step ev s call).graph = c.apply s.graph) ∨
      (step ev s call).graph = s.graph := by
  cases call with
  | change c => exact .inl ⟨c, rfl, rfl⟩
  | engine c => exact .inr rfl
  | derive i c => exact .inr rfl
  | ask i q => exact .inr rfl

theorem trust_of_run {s : Session} {calls : List Call} (h : Quiet ev s calls) :
    TrustGraph.ofGraph (run ev s calls).graph = TrustGraph.ofGraph s.graph := by
  induction calls generalizing s with
  | nil => rfl
  | cons call rest ih =>
    obtain ⟨hcall, hrest⟩ := h
    refine (ih hrest).trans ?_
    rcases graph_of_step ev s call with ⟨c, rfl, hgraph⟩ | hgraph
    · rw [hgraph, trust_of_change (hcall c rfl)]
    · rw [hgraph]

theorem quiet_append {s : Session} {calls more : List Call} :
    Quiet ev s (calls ++ more) ↔ Quiet ev s calls ∧ Quiet ev (run ev s calls) more := by
  induction calls generalizing s with
  | nil => exact ⟨fun h => ⟨trivial, h⟩, fun h => h.2⟩
  | cons call rest ih => exact (and_congr_right fun _ => ih).trans and_assoc.symm

/-! ## What is kept -/

/-- What an engine keeps after a call some engine kept before, or the call is a question to an
engine that kept nothing, which reads the trust. -/
theorem kept_of_step {s : Session} {call : Call} {v : Viewpoint} {t : TrustGraph}
    (hv : v ∈ (step ev s call).views) (ht : v.kept = some t) :
    (∃ w ∈ s.views, w.kept = some t) ∨ ∃ i q w, call = .ask i q ∧ s.views[i]? = some w ∧
      w.kept = none ∧ TrustGraph.ofGraph s.graph = .ok t := by
  cases call with
  | change c => exact .inl ⟨v, hv, ht⟩
  | engine c =>
    rcases List.mem_append.1 hv with hv | hv
    · exact .inl ⟨v, hv, ht⟩
    · obtain rfl := List.mem_singleton.1 hv
      cases ht
  | derive i c =>
    rcases List.mem_append.1 hv with hv | hv
    · exact .inl ⟨v, hv, ht⟩
    · obtain ⟨w, hw, rfl⟩ := Option.map_eq_some_iff.1 (Option.mem_toList.1 hv)
      exact .inl ⟨w, List.mem_of_getElem? hw, ht⟩
  | ask i q =>
    obtain ⟨j, hj⟩ := List.mem_iff_getElem?.1 hv
    rw [show (step ev s (.ask i q)).views = s.views.modify i fun v => v.after ev s.graph q from rfl,
      List.getElem?_modify] at hj
    obtain ⟨w, hw, rfl⟩ := Option.map_eq_some_iff.1 hj
    have hmem : w ∈ s.views := List.mem_of_getElem? hw
    split at ht
    · next hij =>
      subst hij
      rcases Viewpoint.kept_of_after ht with hkept | ⟨hnone, hread⟩
      · exact .inl ⟨w, hmem, hkept⟩
      · exact .inr ⟨i, q, w, rfl, hw, hnone, hread⟩
    · exact .inl ⟨w, hmem, ht⟩

/-- What an engine keeps was read in the course of the session, by a question to an engine that kept
nothing. -/
theorem dated_of_run {g : Graph} {calls : List Call} {v : Viewpoint} {t : TrustGraph}
    (hv : v ∈ (run ev (start g) calls).views) (ht : v.kept = some t) :
    ∃ before i q after w, calls = before ++ .ask i q :: after ∧
      (run ev (start g) before).views[i]? = some w ∧ w.kept = none ∧
      TrustGraph.ofGraph (run ev (start g) before).graph = .ok t := by
  induction calls using List.reverseRecOn generalizing v with
  | nil => exact absurd hv List.not_mem_nil
  | append_singleton calls call ih =>
    rw [run_append] at hv
    rcases kept_of_step hv ht with ⟨w, hw, hkept⟩ | ⟨i, q, w, rfl, hw, hnone, hread⟩
    · obtain ⟨before, i, q, after, u, rfl, hu⟩ := ih hw hkept
      exact ⟨before, i, q, after ++ [call], u, by simp, hu⟩
    · exact ⟨calls, i, q, [], w, rfl, hw, hnone, hread⟩

/-! ## Answers -/

/-- Paths are found under the context of a viewpoint and with the trust seen from it. -/
theorem paths_congr {s : Session} {v w : Viewpoint} (hc : v.context = w.context)
    (ht : v.trustOn s.graph = w.trustOn s.graph) (source target : Identifier) (action : String)
    (b : Bounds) : s.paths ev v source target action b = s.paths ev w source target action b := by
  unfold paths Graph.paths
  split
  · rfl
  · rfl
  · simp only [Graph.explore, hc, ht]

/-- From every engine of a session the trust of some moment is seen, as it is from a new engine that
reads the trust at that moment. -/
theorem seen_of_run {g : Graph} {calls : List Call} {v : Viewpoint}
    (hv : v ∈ (run ev (start g) calls).views) :
    let now := run ev (start g) calls
    ∃ before after, calls = before ++ after ∧
      let moment := run ev (start g) before
      ((v.kept = none ∧ after = []) ∨ ∃ i q rest w, after = .ask i q :: rest ∧
        moment.views[i]? = some w ∧ w.kept = none) ∧
      v.trustOn now.graph = TrustGraph.ofGraph moment.graph ∧
      v.trustOn now.graph =
        ((Viewpoint.ofContext v.context).reading moment.graph).trustOn now.graph := by
  intro now
  cases hkept : v.kept with
  | none =>
    refine ⟨calls, [], (List.append_nil calls).symm, .inl ⟨rfl, rfl⟩, ?_, ?_⟩
    · exact Viewpoint.trustOn_unread hkept _
    · rw [Viewpoint.trustOn_reading_self, Viewpoint.trustOn_unread hkept]
      rfl
  | some t =>
    obtain ⟨before, i, q, rest, w, rfl, hw, hnone, hread⟩ := dated_of_run hv hkept
    refine ⟨before, .ask i q :: rest, rfl, .inr ⟨i, q, rest, w, rfl, hw, hnone⟩, ?_, ?_⟩
    · rw [Viewpoint.trustOn_kept hkept, hread]
    · have hnew : (Viewpoint.ofContext v.context).trustOn (run ev (start g) before).graph = .ok t :=
        hread
      rw [Viewpoint.trustOn_kept hkept, Viewpoint.trustOn_reading hnew]

/-! ## Top theorem -/

/-- **An engine's paths are those of a moment's trust.**  In a session every engine has a moment
such that its paths are those of a new engine for the same context that reads the trust as it was at
that moment, and looks up all else in the graph as it is now.  It is the present moment if the
engine keeps nothing, and else one at which a question was put to an engine that kept nothing.  So
the paths are those of a new engine if the trust is what it was at that moment, in particular if no
call since then has changed it. -/
theorem paths_of_run (g : Graph) (calls : List Call) {v : Viewpoint}
    (hv : v ∈ (run ev (start g) calls).views) :
    let now := run ev (start g) calls
    ∃ before after, calls = before ++ after ∧
      let moment := run ev (start g) before
      let seasoned := (Viewpoint.ofContext v.context).reading moment.graph
      ((v.kept = none ∧ after = []) ∨ ∃ i q rest w, after = .ask i q :: rest ∧
        moment.views[i]? = some w ∧ w.kept = none) ∧
      ∀ source target action b,
        now.paths ev v source target action b = now.paths ev seasoned source target action b ∧
          (TrustGraph.ofGraph now.graph = TrustGraph.ofGraph moment.graph ∨ Quiet ev moment after →
            now.paths ev v source target action b =
              now.paths ev (.ofContext v.context) source target action b) := by
  intro now
  obtain ⟨before, after, hcalls, hmoment, hseen, hseasoned⟩ := seen_of_run hv
  refine ⟨before, after, hcalls, hmoment, fun source target action b => ⟨?_, fun h => ?_⟩⟩
  · refine paths_congr ?_ ?_ source target action b
    · exact (Viewpoint.context_reading (.ofContext v.context) _).symm
    · exact hseasoned
  · have hsame : TrustGraph.ofGraph now.graph =
        TrustGraph.ofGraph (run ev (start g) before).graph := by
      rcases h with hsame | hquiet
      · exact hsame
      · rw [← trust_of_run hquiet, ← run_append, ← hcalls]
    refine paths_congr ?_ ?_ source target action b
    · rfl
    · exact hseen.trans hsame.symm

/-- How the member may read the file. -/
def toFile : Question := .paths "member" "file" "read" Bounds.default

/-- An engine that has read that the role trusts the member finds the member's path to a file that
is added later. -/
theorem paths_of_run_memberOfRole :
    let calls : List Call := [.engine .empty, .ask 0 toFile,
      .change (.resource ⟨.str "note", .other, "", "", "", none⟩)]
    let now := run Condition.standard (start Graph.memberOfRole) calls
    let answer (v : Viewpoint) :=
      now.paths Condition.standard v "member" "note" "read" Bounds.default
    ∃ v ∈ now.views, v.kept = some ⟨[("member", "role")]⟩ ∧
      answer v = answer (.ofContext v.context) ∧
      (answer v).outcome = .ok [Path.ofRoute "member" "note" "read" ["member", "role"]] := by
  intro calls now answer
  have hviews : now.views = [⟨.empty, some ⟨[("member", "role")]⟩⟩] := by cbv
  have hv : ⟨.empty, some ⟨[("member", "role")]⟩⟩ ∈ now.views := hviews ▸ List.mem_singleton.2 rfl
  have hquiet : Quiet Condition.standard (start Graph.memberOfRole) calls := by
    refine ⟨fun c hc => ?_, fun c hc => ?_, fun c hc => ?_, trivial⟩
    · cases hc
    · cases hc
    · cases hc
      trivial
  obtain ⟨before, after, hcalls, -, hpaths⟩ := paths_of_run Graph.memberOfRole calls hv
  have hafter := (quiet_append.1 (hcalls ▸ hquiet)).2
  refine ⟨_, hv, rfl, (hpaths "member" "note" "read" Bounds.default).2 (.inr hafter), ?_⟩
  dsimp only [answer]
  cbv

/-- A member, a role that trusts nobody yet, and a file that the role may read, with an engine. -/
def beforeTrust : List Call := [
  .change (.principal Graph.member), .change (.principal Graph.role),
  .change (.resource ⟨.str "file", .other, "", "", "", none⟩),
  .change (.edge "role" "*" false ⟨.str "*", .null, ""⟩), .engine .empty]

/-- An engine that was asked before the role came to trust the member finds no path; a new one does,
and so does the one that was asked if the trust was there before. -/
theorem paths_not_fresh :
    let paths (s : Session) (v : Viewpoint) :=
      (s.paths Condition.standard v "member" "file" "read" Bounds.default).outcome
    let trusted : Call := .change (.trust "member" "role")
    let late := run Condition.standard (start .empty) (beforeTrust ++ [.ask 0 toFile, trusted])
    let early := run Condition.standard (start .empty) (beforeTrust ++ [trusted, .ask 0 toFile])
    (∃ v, late.views = [v] ∧ paths late v = .ok [] ∧ paths late (.ofContext v.context) =
        .ok [Path.ofRoute "member" "file" "read" ["member", "role"]]) ∧
      ∃ v, early.views = [v] ∧ paths early v =
        .ok [Path.ofRoute "member" "file" "read" ["member", "role"]] :=
  ⟨⟨⟨.empty, some ⟨[]⟩⟩, by cbv, by cbv, by cbv⟩,
    ⟨.empty, some ⟨[("member", "role")]⟩⟩, by cbv, by cbv⟩

end Session
end CloudAccess
