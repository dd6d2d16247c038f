import CloudAccess.Proofs.Decision.Guardrails
import CloudAccess.Report

/-!
# Requests that end in a fault

Identifiers in a graph need not be texts, and then a request may end in a fault instead of a
decision.  What it comes upon is told by `Graph.Blames`: a group of the principal or of one of its
groups, or the pattern of an edge:

    (g.decision … p).outcome = .error f → g.Blames x.target p f           (blames_of_decision)

A fault of a scan is the fault of one of its items, and a fault of a run through the layers is that
of one of the layers.  The layers of policies that guard have none.
-/

namespace CloudAccess

open Condition (Evaluator)

/-! ## Scans and layers -/

theorem exists_of_anyPasses_error {α : Type} {test : α → Except Fault Bool} {l : List α}
    {f : Fault} (h : anyPasses test l = .error f) : ∃ a ∈ l, test a = .error f := by
  induction l with
  | nil => cases h
  | cons a rest ih =>
    rw [anyPasses] at h
    rcases bind_eq_error h with ha | ⟨head, -, hrest⟩
    · exact ⟨a, List.mem_cons_self, ha⟩
    · cases head with
      | true => cases hrest
      | false =>
        obtain ⟨b, hb, htest⟩ := ih hrest
        exact ⟨b, List.mem_cons_of_mem a hb, htest⟩

theorem exists_of_settle_error {v : Layer → Run Fault Verdict} {ls : List Layer} {f : Fault}
    (h : (Graph.settle v ls).outcome = .error f) : ∃ l ∈ ls, (v l).outcome = .error f := by
  induction ls with
  | nil => cases h
  | cons l rest ih =>
    rw [Graph.settle, Traced.outcome_bind] at h
    rcases bind_eq_error h with hl | ⟨verdict, -, hrest⟩
    · exact ⟨l, List.mem_cons_self, hl⟩
    · cases verdict with
      | allow => cases hrest
      | deny => cases hrest
      | notApplicable =>
        obtain ⟨k, hk, hv⟩ := ih hrest
        exact ⟨k, List.mem_cons_of_mem l hk, hv⟩

theorem ne_error_of_splits {ε α : Type} {o : Except ε α} {P : Prop} {yes no : α}
    (h : Splits o P yes no) (e : ε) : o ≠ .error e := by
  rcases h with ⟨-, rfl⟩ | ⟨-, rfl⟩
  · nofun
  · nofun

namespace Identifier

/-- Lists and objects do not identify anything. -/
theorem ofJson_eq_error {v : Json} {f : Fault} (h : ofJson v = .error f) :
    v.key? = none ∧ f = .notKey v.kind := by
  unfold ofJson ofJson? at h
  split at h
  · cases h
  · next hnone =>
    split at hnone
    · cases hnone
    · next hkey => exact ⟨hkey, (Except.error.inj h).symm⟩

end Identifier

namespace Graph

theorem principalText_eq_error {v : Json} {f : Fault} (h : principalText v = .error f) :
    (¬ ∃ a, v = .str a) ∧ f = .noOperation v.kind "endswith" := by
  cases v with
  | str s => cases h
  | _ =>
    refine ⟨?_, (Except.error.inj h).symm⟩
    rintro ⟨a, ha⟩
    cases ha

theorem principalText_eq_ok {v : Json} {name : String} (h : principalText v = .ok name) :
    v = .str name := by
  cases v with
  | str s => rw [Except.ok.inj h]
  | _ => cases h

/-! ## What is to blame -/

/-- What a request of a principal can come upon that gives it a fault. -/
inductive Blames (g : Graph) (target p : String) : Fault → Prop
  /-- A group of the principal is no text. -/
  | group {q : Json} : q ∈ g.groupsOf p → (¬ ∃ a, q = .str a) →
      Blames g target p (.noOperation q.kind "endswith")
  /-- A group of the principal is a list or an object. -/
  | membership {q : Json} : q ∈ g.groupsOf p → q.key? = none → Blames g target p (.notKey q.kind)
  /-- A group of one of its groups is a list or an object. -/
  | inherited {name : String} {q : Json} : .str name ∈ g.groupsOf p → q ∈ g.groupsOf name →
      q.key? = none → Blames g target p (.notKey q.kind)
  /-- The pattern of an edge cannot be matched against the target. -/
  | edge {deny : Bool} {o : Identifier} {a : String} {e : Edge} {f : Fault} :
      g.Holds deny o a e → covers e.pattern (.str target) = .error f → Blames g target p f

variable {g : Graph} {x : Setting} {f : Fault}

/-- Of an edge that is tried only the pattern can give a fault. -/
theorem fault_of_edges (deny : Bool) {owner : Identifier} {test : Edge → Except Fault Bool}
    {judge : Edge → Bool}
    (htest : ∀ e : Edge, test e = (covers e.pattern x.request.resource).map (· && judge e))
    (h : anyPasses test ((g.index deny).concerning owner x.action) = .error f) :
    ∃ a e, g.Holds deny owner a e ∧ covers e.pattern (.str x.target) = .error f := by
  obtain ⟨e, he, hfault⟩ := exists_of_anyPasses_error h
  obtain ⟨a, hholds, -⟩ := (EdgeIndex.mem_concerning _ _ _ _).1 he
  rw [htest] at hfault
  exact ⟨a, e, hholds, map_eq_error hfault⟩

/-- A layer of one's own has a fault by a group that identifies nothing, or by an edge. -/
theorem fault_of_ownVerdict {p : String} {l : Layer}
    (h : (g.ownVerdict x.evaluator x.request p l).outcome = .error f) :
    (∃ q ∈ g.groupsOf p, q.key? = none ∧ f = .notKey q.kind) ∨
      ∃ deny o a e, g.Holds deny o a e ∧ covers e.pattern (.str x.target) = .error f := by
  cases l with
  | organization => exact absurd h (ne_error_of_splits (organization_verdict x p) f)
  | boundary => exact absurd h (ne_error_of_splits
      (x.guard_optional .boundary ((g.principal? p).bind Principal.boundary)) f)
  | session => exact absurd h (ne_error_of_splits (x.guard_optional .session x.context.session) f)
  | denials =>
    rw [denials_outcome] at h
    obtain ⟨owner, howner, hfault⟩ := exists_of_anyPasses_error (map_eq_error h)
    unfold deniesOwner at hfault
    rcases bind_eq_error hfault with hid | ⟨id, -, hscan⟩
    · obtain ⟨hkey, rfl⟩ := Identifier.ofJson_eq_error hid
      rcases List.mem_cons.1 howner with rfl | hgroup
      · cases hkey
      · exact .inl ⟨owner, hgroup, hkey, rfl⟩
    · obtain ⟨a, e, hedge⟩ := fault_of_edges true (fun _ => rfl) hscan
      exact .inr ⟨true, id, a, e, hedge⟩
  | grants =>
    rw [grants_outcome] at h
    obtain ⟨a, e, hedge⟩ := fault_of_edges false (fun _ => rfl) (map_eq_error h)
    exact .inr ⟨false, p, a, e, hedge⟩
  | groups => cases h

/-- A request that ends in a fault came upon what is to blame for it. -/
theorem blames_of_decision {p : String}
    (h : (g.decision x.evaluator x.request (.str p)).outcome = .error f) :
    g.Blames x.target p f := by
  rw [decision_outcome, decide_outcome] at h
  rcases bind_eq_error h with hown | ⟨own, -, hgroups⟩
  · obtain ⟨l, -, hl⟩ := exists_of_settle_error hown
    rcases fault_of_ownVerdict hl with ⟨q, hq, hkey, rfl⟩ | ⟨deny, o, a, e, hholds, hcovers⟩
    · exact .membership hq hkey
    · exact .edge hholds hcovers
  · cases hlayer : own.layer with
    | some l => rw [hlayer] at hgroups; cases hgroups
    | none =>
      rw [hlayer] at hgroups
      obtain ⟨group, hgroup, hfault⟩ := exists_of_anyPasses_error (map_eq_error hgroups)
      unfold grantsGroup at hfault
      rcases bind_eq_error hfault with hname | ⟨name, hname, hrest⟩
      · obtain ⟨htext, rfl⟩ := principalText_eq_error hname
        exact .group hgroup htext
      · obtain rfl := principalText_eq_ok hname
        rcases bind_eq_error hrest with hown | ⟨d, -, hd⟩
        · obtain ⟨l, -, hl⟩ := exists_of_settle_error hown
          rcases fault_of_ownVerdict hl with ⟨q, hq, hkey, rfl⟩ | ⟨deny, o, a, e, hholds, hcovers⟩
          · exact .inherited hgroup hq hkey
          · exact .edge hholds hcovers
        · cases hd

/-! ## Asking for all principals -/

/-- All principals are asked for, and the first fault among them is the answer. -/
theorem holders_error {ev : Evaluator} {c : Context} {resource : Json} {action : String}
    (h : (g.holders ev c resource action).outcome = .error f) :
    ∃ P ∈ g.principals.values, (g.permits ev ⟨action, resource, c⟩ P.arn).outcome = .error f := by
  unfold holders at h
  generalize g.principals.values = all at h ⊢
  induction all with
  | nil => cases h
  | cons P rest ih =>
    rw [holders.go, Traced.outcome_bind] at h
    rcases bind_eq_error h with hP | ⟨ok, -, h⟩
    · exact ⟨P, List.mem_cons_self, hP⟩
    · rw [Traced.outcome_bind] at h
      rcases bind_eq_error h with hrest | ⟨others, -, hpure⟩
      · obtain ⟨P', hP', hfault⟩ := ih hrest
        exact ⟨P', List.mem_cons_of_mem P hP', hfault⟩
      · cases hpure

theorem permits_of_holders {ev : Evaluator} {c : Context} {resource : Json} {action : String}
    {ps : List Principal} (h : (g.holders ev c resource action).outcome = .ok ps) :
    ∀ P ∈ g.principals.values, ∃ b, (g.permits ev ⟨action, resource, c⟩ P.arn).outcome = .ok b := by
  unfold holders at h
  generalize g.principals.values = all at h ⊢
  induction all generalizing ps with
  | nil => exact fun P hP => absurd hP List.not_mem_nil
  | cons P rest ih =>
    rw [holders.go, Traced.outcome_bind] at h
    obtain ⟨ok, hP, h⟩ := bind_eq_ok h
    rw [Traced.outcome_bind] at h
    obtain ⟨others, hrest, -⟩ := bind_eq_ok h
    exact List.forall_mem_cons.2 ⟨⟨ok, hP⟩, ih hrest⟩

/-- Only who is named by a text can be asked for. -/
theorem permits_error {ev : Evaluator} {r : Request} {v : Json}
    (h : (g.permits ev r v).outcome = .error f) :
    ((¬ ∃ a, v = .str a) ∧ f = .noOperation v.kind "endswith") ∨
      ∃ p, v = .str p ∧ (g.decision ev r (.str p)).outcome = .error f := by
  rw [permits_outcome] at h
  have hdecision := map_eq_error h
  by_cases htext : ∃ a, v = .str a
  · obtain ⟨p, rfl⟩ := htext
    exact .inr ⟨p, rfl, hdecision⟩
  · unfold decision at hdecision
    rw [Traced.outcome_bind, Traced.outcome_ofExcept] at hdecision
    rcases bind_eq_error hdecision with hname | ⟨name, hname, -⟩
    · exact .inl (principalText_eq_error hname)
    · exact absurd ⟨name, principalText_eq_ok hname⟩ htext

end Graph
end CloudAccess
