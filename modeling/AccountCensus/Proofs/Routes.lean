import AccountCensus.Http
import Mathlib.Data.List.TakeWhile

/-!
# Where requests go

A request target is a path, alone or with a query or a fragment behind it, and names one path only
(`names_iff`). Two paths have a resource, and the two methods that read get it (`route_serve_iff`);
any other method on these paths is the wrong one (`route_wrongMethod_iff`), and every other path is
unknown (`route_unknownPath_iff`). Nothing but the very characters of a path counts, so that one
slash more or a capital letter makes another path.
-/

namespace AccountCensus.Http

/-! ## Targets -/

/-- Nothing in the text begins a query or a fragment. -/
def IsPath (path : String) : Prop := ∀ c ∈ path.toList, c ≠ '?' ∧ c ≠ '#'

/-- A request target names a path: with or without a query or a fragment. -/
inductive Names : String → String → Prop
  | bare {path : String} : IsPath path → Names path path
  | query {path : String} (text : String) : IsPath path → Names (path ++ "?" ++ text) path
  | fragment {path : String} (text : String) : IsPath path → Names (path ++ "#" ++ text) path

/-- A character that targets are not cut at. -/
def isPathChar (c : Char) : Bool := c != '?' && c != '#'

theorem barePath_eq (target : String) :
    barePath target = String.ofList (target.toList.takeWhile isPathChar) := rfl

theorem isPath_iff {path : String} : IsPath path ↔ ∀ c ∈ path.toList, isPathChar c = true := by
  simp [IsPath, isPathChar]

/-- A target is cut behind its path. -/
theorem barePath_append {path : String} (hpath : IsPath path) {c : Char}
    (hc : isPathChar c = false) (rest : List Char) :
    barePath (path ++ String.ofList (c :: rest)) = path := by
  rw [barePath_eq, String.toList_append, String.toList_ofList,
    List.takeWhile_append_of_pos (isPath_iff.mp hpath),
    List.takeWhile_cons_of_neg (by rw [hc]; exact Bool.false_ne_true), List.append_nil,
    String.ofList_toList]

theorem isPath_barePath (target : String) : IsPath (barePath target) := by
  rw [isPath_iff, barePath_eq, String.toList_ofList]
  exact fun c hc => List.mem_takeWhile_imp hc

/-- **A target names one path.** -/
theorem names_iff {target path : String} : Names target path ↔ barePath target = path := by
  constructor
  · rintro (hpath | ⟨text, hpath⟩ | ⟨text, hpath⟩)
    · rw [barePath_eq, List.takeWhile_eq_self_iff.mpr (isPath_iff.mp hpath), String.ofList_toList]
    · have hcut := barePath_append hpath (c := '?') rfl text.toList
      rwa [String.ofList_cons, String.ofList_toList, ← String.append_assoc] at hcut
    · have hcut := barePath_append hpath (c := '#') rfl text.toList
      rwa [String.ofList_cons, String.ofList_toList, ← String.append_assoc] at hcut
  · rintro rfl
    have hpath := isPath_barePath target
    have hsplit : target = barePath target ++
        String.ofList (target.toList.dropWhile isPathChar) := by
      rw [barePath_eq, ← String.ofList_append, List.takeWhile_append_dropWhile,
        String.ofList_toList]
    have hstops := List.head?_dropWhile_not isPathChar target.toList
    cases hrest : target.toList.dropWhile isPathChar with
    | nil =>
        rw [hrest, String.ofList_nil, String.append_empty] at hsplit
        rw [← hsplit] at hpath ⊢
        exact .bare hpath
    | cons c rest =>
        rw [hrest, String.ofList_cons, ← String.append_assoc] at hsplit
        generalize barePath target = path at hpath hsplit ⊢
        subst hsplit
        have hc : c = '?' ∨ c = '#' := by
          rw [hrest] at hstops
          simpa [isPathChar, imp_iff_not_or] using hstops
        rcases hc with rfl | rfl
        · exact .query _ hpath
        · exact .fragment _ hpath

instance (target path : String) : Decidable (Names target path) :=
  decidable_of_iff _ names_iff.symm

/-! ## Routes -/

/-- The path at which a resource is served. -/
def Resource.path : Resource → String
  | .exposition => "/metrics"
  | .report => "/api/stats/users"

theorem resourceAt_eq_some_iff {path : String} {resource : Resource} :
    resourceAt path = some resource ↔ path = resource.path := by
  unfold resourceAt
  split
  · rename_i h
    subst h
    cases resource <;> simp [Resource.path]
  · split
    · rename_i h
      subst h
      cases resource <;> simp [Resource.path]
    · cases resource <;> simp [Resource.path, *]

namespace Request

/-- The method is one of those that read. -/
def Reads (r : Request) : Prop := r.method = "GET" ∨ r.method = "HEAD"

instance (r : Request) : Decidable r.Reads := inferInstanceAs (Decidable (_ ∨ _))

theorem isRead_iff {r : Request} : r.isRead = true ↔ r.Reads := by
  simp [isRead, Reads]

/-- The request reads at the path of the resource. -/
def Asks (r : Request) (resource : Resource) : Prop := Names r.path resource.path ∧ r.Reads

instance (r : Request) (resource : Resource) : Decidable (r.Asks resource) :=
  inferInstanceAs (Decidable (_ ∧ _))

theorem resourceAt_barePath_iff {r : Request} {resource : Resource} :
    resourceAt (barePath r.path) = some resource ↔ Names r.path resource.path := by
  rw [resourceAt_eq_some_iff, names_iff]

/-- **A resource is served to those who read at its very path.** -/
theorem route_serve_iff {r : Request} {resource : Resource} :
    r.route = .serve resource ↔ r.Asks resource := by
  rw [Asks, ← resourceAt_barePath_iff, ← isRead_iff, route]
  cases resourceAt (barePath r.path) with
  | none => simp
  | some other => cases r.isRead <;> simp

theorem route_of_get {r : Request} {resource : Resource} (hpath : barePath r.path = resource.path)
    (hmethod : r.method = "GET") : r.route = .serve resource :=
  route_serve_iff.mpr ⟨names_iff.mpr hpath, .inl hmethod⟩

theorem route_wrongMethod_iff {r : Request} :
    r.route = .wrongMethod ↔ (∃ resource : Resource, Names r.path resource.path) ∧ ¬ r.Reads := by
  simp only [← resourceAt_barePath_iff, ← isRead_iff, route]
  cases resourceAt (barePath r.path) with
  | none => simp
  | some other => cases r.isRead <;> simp

theorem route_unknownPath_iff {r : Request} :
    r.route = .unknownPath ↔ ∀ resource : Resource, ¬ Names r.path resource.path := by
  simp only [← resourceAt_barePath_iff, route]
  cases resourceAt (barePath r.path) with
  | none => simp
  | some other => cases r.isRead <;> simp

end Request

end AccountCensus.Http
