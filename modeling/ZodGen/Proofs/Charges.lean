import ZodGen.Proofs.NeededNames
import ZodGen.Proofs.UsePlaces

/-!
# What uses count for

The declarators of a script take up some text, stand in order and do not overlap, and its uses take
up some text. So the search for the declarator around a use finds what a scan would find, and every
use counts for one declarator or for the seeds (`ownerAt?_scan`).
-/

namespace ZodGen.Script

namespace Liveness

/-- Each use of a symbol counts for the one binding that holds it, or for the seeds if none does.
Bindings and seeds name the symbols of the uses that count for them. -/
structure Charges (l : Liveness) (symbols : List Symbol) : Prop where
  one : ∀ y ∈ symbols, ∀ u ∈ y.uses,
    (∃! i : Nat, ∃ b : Binding, l.bindings[i]? = some b ∧ b.span.Holds u)
      ∨ ∀ b ∈ l.bindings, ¬ b.span.Holds u
  references : ∀ b ∈ l.bindings,
    b.references = (symbols.filter fun y => ∃ u ∈ y.uses, b.span.Holds u).map (·.name)
  seeds : l.seeds = (symbols.filter fun y =>
    ∃ u ∈ y.uses, ∀ b ∈ l.bindings, ¬ b.span.Holds u).map (·.name)

section Bindings

variable (p : Program)

theorem map_span_bindings : (ofProgram p).bindings.map (·.span) = HasPlaces.places p := by
  rw [bindings_eq, List.map_map]
  exact map_span_declarators p.statements

theorem usedIn_places (range : Option Span) :
    usedIn range ((Symbol.ofItems p.items).map (place ((declarators p.statements).map (·.2.2))))
      = ((Symbol.ofItems p.items).filter fun y =>
        ∃ u ∈ y.uses, owner (HasPlaces.places p) u = range).map (·.name) := by
  rw [usedIn_place, map_span_declarators]
  rfl

variable {p}

theorem references_eq {b : Binding} (hb : b ∈ (ofProgram p).bindings) :
    b.references = ((Symbol.ofItems p.items).filter fun y =>
      ∃ u ∈ y.uses, owner (HasPlaces.places p) u = some b.span).map (·.name) := by
  rw [bindings_eq] at hb
  obtain ⟨x, -, rfl⟩ := List.mem_map.1 hb
  exact usedIn_places p (some x.2.2)

/-- Where declarators and uses take up some text and declarators stand apart, the search charges
every use as it should. -/
theorem charges_ofProgram (hapart : Span.Apart (HasPlaces.places p))
    (huses : ∀ y ∈ Symbol.ofItems p.items, ∀ u ∈ y.uses, u.start < u.stop) :
    (ofProgram p).Charges (Symbol.ofItems p.items) where
  one y hy u hu := by
    have hsearch (i : Nat) : (∃ b : Binding, (ofProgram p).bindings[i]? = some b ∧ b.span.Holds u)
        ↔ ownerAt? (HasPlaces.places p) u = some i := by
      rw [ownerAt?_eq_some_iff hapart (huses y hy u hu), ← map_span_bindings]
      simp
    cases howner : ownerAt? (HasPlaces.places p) u with
    | some i =>
      refine .inl ⟨i, (hsearch i).2 howner, fun j hj => ?_⟩
      exact Option.some.inj (((hsearch j).1 hj).symm.trans howner)
    | none =>
      have hnone := (ownerAt?_eq_none_iff hapart (huses y hy u hu)).1 howner
      exact .inr fun b hb => hnone b.span (span_mem_places hb)
  references b hb := by
    rw [references_eq hb]
    congr 1
    refine List.filter_congr fun y hy => decide_eq_decide.2 (exists_congr fun u => ?_)
    refine and_congr_right fun hu => ?_
    rw [owner_eq_some_iff hapart (huses y hy u hu)]
    exact and_iff_right (span_mem_places hb)
  seeds := by
    refine (usedIn_places p none).trans (congrArg _ ?_)
    refine List.filter_congr fun y hy => decide_eq_decide.2 (exists_congr fun u => ?_)
    refine and_congr_right fun hu => ?_
    rw [owner_eq_none_iff hapart (huses y hy u hu), ← map_span_bindings]
    exact List.forall_mem_map

end Bindings

/-- The search for the range that holds a place agrees with a scan of all ranges, if they take up
some text, stand in order and do not overlap. The declarators of a script are such ranges, and so
every use of a name of the script counts for one declarator or for the seeds. -/
theorem ownerAt?_scan :
    (∀ (ranges : List Span) (s : Span), Span.Apart ranges → s.start < s.stop →
      (∀ i, ownerAt? ranges s = some i ↔ ∃ r, ranges[i]? = some r ∧ r.Holds s)
        ∧ (ownerAt? ranges s = none ↔ ∀ r ∈ ranges, ¬ r.Holds s))
    ∧ ∀ (source : String) (p : Program), parse source = .ok p →
      Span.Apart ((ofProgram p).bindings.map (·.span))
        ∧ (∀ y ∈ Symbol.ofItems p.items, ∀ u ∈ y.uses, u.start < u.stop)
        ∧ (ofProgram p).Charges (Symbol.ofItems p.items) := by
  refine ⟨fun ranges s hapart hs => ?_, fun source p hp => ?_⟩
  · exact ⟨ownerAt?_eq_some_iff hapart hs, ownerAt?_eq_none_iff hapart hs⟩
  · obtain ⟨stop, hinOrder⟩ := Program.inOrder_places (parse_eq_ok.1 hp)
    have hitems := Program.items_wide (parse_eq_ok.1 hp)
    have huses : ∀ y ∈ Symbol.ofItems p.items, ∀ u ∈ y.uses, u.start < u.stop :=
      fun y hy u hu => Symbol.start_lt_stop_of_mem_uses hitems hy hu
    rw [map_span_bindings]
    exact ⟨hinOrder.apart, huses, charges_ofProgram hinOrder.apart huses⟩

/-- Ranges of which the first two touch. -/
def touching : List Span := [⟨4, 9⟩, ⟨9, 16⟩, ⟨20, 21⟩]

/-- A place at the seam of two ranges is in the second, and one across the seam is in none. The
second declarator of the script holds one of the two uses of `a`; the other is a seed. -/
theorem ownerAt?_scan_touching :
    (∃ r, touching[1]? = some r ∧ r.Holds ⟨9, 10⟩)
      ∧ (∀ r ∈ touching, ¬ r.Holds ⟨8, 10⟩)
      ∧ ∃ p, parse "let a = 1, b = a;\nlog(a)" = .ok p
        ∧ (ofProgram p).seeds = ["a"]
        ∧ (ofProgram p).bindings.map (fun b => (b.span, b.references))
          = [(⟨4, 9⟩, []), (⟨11, 16⟩, ["a"])]
        ∧ (ofProgram p).Charges (Symbol.ofItems p.items) := by
  have hapart : Span.Apart touching := ⟨by decide, by decide, by decide⟩
  obtain ⟨p, hp, -, hl⟩ := twoDeclarators_of.exists_parse
  refine ⟨?_, ?_, p, hp, by rw [hl]; decide, by rw [hl]; decide, ?_⟩
  · exact ((ownerAt?_scan.1 touching ⟨9, 10⟩ hapart (by decide)).1 1).1 (by decide)
  · exact (ownerAt?_scan.1 touching ⟨8, 10⟩ hapart (by decide)).2.1 (by decide)
  · exact (ownerAt?_scan.2 _ p hp).2.2

end Liveness

end ZodGen.Script
