import MuxRuntime.Http.Router

/-!
# Which route is selected

Two patterns that match the same path differ in the kind of some segment, or the
registration of the second one is refused as ambiguous. The vectors compare patterns at
the first such segment, so exactly one of the matching routes has the greatest vector.
-/

namespace MuxRuntime.Http

open List Str Loop

/-! ## Compiled patterns -/

/-- A catch-all is at the end. -/
def Pattern : List HttpRouteSegment → Prop
  | [] => True
  | .catchAll _ :: rest => rest = []
  | .literal _ :: rest | .parameter _ :: rest => Pattern rest

/-- The names of the captures. -/
def captureNames (segments : List HttpRouteSegment) : List (List Char) :=
  segments.filterMap HttpRouteSegment.name?

lemma routeSegment_eq_ok {names : List (List Char)} {isFinal : Bool} {raw : List Char}
    {segment : HttpRouteSegment} (h : routeSegment names isFinal raw = .ok segment) :
    (∀ name ∈ segment.name?, name ∉ names) ∧ (segment.isCatchAll = true → isFinal = true) := by
  unfold routeSegment at h
  split_ifs at h
  · dsimp only at h
    split_ifs at h with hvalid hnew hfinal hcatch
    · cases h
      refine ⟨fun n hn => ?_, fun _ => ?_⟩
      · cases hn
        exact hnew
      · simpa [hcatch] using hfinal
    · cases h
      refine ⟨fun n hn => ?_, by simp [HttpRouteSegment.isCatchAll]⟩
      cases hn
      exact hnew
  · obtain ⟨text, -, rfl⟩ := map_eq_ok h
    exact ⟨fun n hn => (by cases hn), by simp [HttpRouteSegment.isCatchAll]⟩

variable {segments : List HttpRouteSegment}

/-- Compiled patterns have their catch-all at the end and names for their captures that
differ. -/
lemma compileSegments_eq_ok {names raws : List (List Char)}
    (h : compileSegments names raws = .ok segments) :
    Pattern segments ∧ (captureNames segments).Nodup ∧
      ∀ name ∈ captureNames segments, name ∉ names := by
  induction raws generalizing names segments with
  | nil =>
    cases h
    exact ⟨trivial, nodup_nil, by simp [captureNames]⟩
  | cons raw rest ih => ?_
  obtain ⟨segment, hsegment, h⟩ := bind_eq_ok h
  obtain ⟨segments', hrest, h⟩ := bind_eq_ok h
  cases h
  obtain ⟨hname, hfinal⟩ := routeSegment_eq_ok hsegment
  obtain ⟨hpattern, hnodup, hnew⟩ := ih hrest
  cases segment with
  | literal text =>
    refine ⟨hpattern, hnodup, fun name hmem => ?_⟩
    have := hnew name hmem
    simpa [HttpRouteSegment.name?] using this
  | parameter name =>
    simp only [HttpRouteSegment.name?, Option.toList_some, mem_append,
      mem_singleton, not_or] at hnew
    refine ⟨hpattern, nodup_cons.mpr ⟨fun hmem => (hnew name hmem).2 rfl, hnodup⟩, ?_⟩
    intro n hn
    rcases mem_cons.mp hn with rfl | hn
    · exact hname n rfl
    · exact (hnew n hn).1
  | catchAll name => ?_
  have hend : rest = [] := List.isEmpty_iff.mp (hfinal rfl)
  subst hend
  cases hrest
  refine ⟨rfl, nodup_singleton _, fun n hn => ?_⟩
  cases mem_singleton.mp hn
  exact hname name rfl

/-! ## Better patterns -/

/-- Literal over parameter over catch-all, and an exact end over a catch-all, at the first
segment where the patterns differ. -/
inductive Better : List HttpRouteSegment → List HttpRouteSegment → Prop
  | literal {text name : List Char} {rest rest' : List HttpRouteSegment} :
      Better (.literal text :: rest) (.parameter name :: rest')
  | literalCatchAll {text name : List Char} {rest rest' : List HttpRouteSegment} :
      Better (.literal text :: rest) (.catchAll name :: rest')
  | parameter {name name' : List Char} {rest rest' : List HttpRouteSegment} :
      Better (.parameter name :: rest) (.catchAll name' :: rest')
  | exact {name : List Char} {rest : List HttpRouteSegment} : Better [] (.catchAll name :: rest)
  | later {segment segment' : HttpRouteSegment} {rest rest' : List HttpRouteSegment}
      (hsame : sameSegment segment segment' = true) (h : Better rest rest') :
      Better (segment :: rest) (segment' :: rest')

/-- The patterns differ at most in the names of captures. -/
def SamePattern (segments segments' : List HttpRouteSegment) : Prop :=
  List.Forall₂ (fun s s' => sameSegment s s' = true) segments segments'

variable {s : HttpRouteSegment}

lemma sameSegment_symm {s' : HttpRouteSegment} (h : sameSegment s s' = true) :
    sameSegment s' s = true := by
  cases s <;> cases s' <;> simp_all [sameSegment]

variable {segments' : List HttpRouteSegment}

lemma SamePattern.symm (h : SamePattern segments segments') : SamePattern segments' segments := by
  apply List.Forall₂.flip
  exact h.imp fun _ _ => sameSegment_symm

variable {captures : Captures}

/-- Of two patterns that match a path, one is better or they are the same. -/
theorem compare_patterns {path : List (List Char)} {captures' : Captures}
    (hpattern : Pattern segments) (hpattern' : Pattern segments')
    (h : matchSegments segments path captures ≠ none)
    (h' : matchSegments segments' path captures' ≠ none) :
    Better segments segments' ∨ Better segments' segments ∨ SamePattern segments segments' := by
  induction segments generalizing segments' path captures captures' with
  | nil =>
    rcases segments' with _ | ⟨s', rest'⟩
    · exact Or.inr (Or.inr .nil)
    cases path with
    | cons p path => exact absurd rfl h
    | nil =>
      cases s' with
      | catchAll name => exact Or.inl .exact
      | literal text | parameter name => exact absurd rfl h'
  | cons s rest ih => ?_
  cases segments' with
  | nil =>
    cases path with
    | cons p path => exact absurd rfl h'
    | nil =>
      cases s with
      | catchAll name => exact Or.inr (Or.inl .exact)
      | literal text | parameter name => exact absurd rfl h
  | cons s' rest' => ?_
  -- the rest decides once the first segments are the same
  have hlater : sameSegment s s' = true →
      (Better rest rest' ∨ Better rest' rest ∨ SamePattern rest rest') →
      Better (s :: rest) (s' :: rest') ∨ Better (s' :: rest') (s :: rest) ∨
        SamePattern (s :: rest) (s' :: rest') := by
    rintro hsame (hbetter | hbetter | hrest)
    · exact Or.inl (.later hsame hbetter)
    · exact Or.inr (Or.inl (.later (sameSegment_symm hsame) hbetter))
    · exact Or.inr (Or.inr (.cons hsame hrest))
  cases s with
  | literal text =>
    cases s' with
    | parameter name => exact Or.inl .literal
    | catchAll name => exact Or.inl .literalCatchAll
    | literal text' => ?_
    rcases path with _ | ⟨p, path⟩
    · exact absurd rfl h
    by_cases hp : p = text
    · by_cases hp' : p = text'
      · simp only [matchSegments, hp, if_true] at h
        simp only [matchSegments, hp', if_true] at h'
        apply hlater
        · simp [sameSegment, ← hp, ← hp']
        · exact ih hpattern hpattern' h h'
      · simp [matchSegments, hp'] at h'
    · simp [matchSegments, hp] at h
  | parameter name =>
    cases s' with
    | literal text => exact Or.inr (Or.inl .literal)
    | catchAll name' => exact Or.inl .parameter
    | parameter name' =>
      cases path with
      | nil => exact absurd rfl h
      | cons p path => exact hlater rfl (ih hpattern hpattern' h h')
  | catchAll name => ?_
  cases s' with
  | literal text => exact Or.inr (Or.inl .literalCatchAll)
  | parameter name' => exact Or.inr (Or.inl .parameter)
  | catchAll name' =>
    have hrest : rest = [] := hpattern
    have hrest' : rest' = [] := hpattern'
    subst hrest hrest'
    exact hlater rfl (Or.inr (Or.inr .nil))

lemma Pattern.tail {rest : List HttpRouteSegment} (h : Pattern (s :: rest)) :
    Pattern rest ∧ (s.isCatchAll = true → rest = []) := by
  cases s <;> simp_all [Pattern, HttpRouteSegment.isCatchAll]

lemma routeSpecificity_cons (h : s.isCatchAll = false) (rest : List HttpRouteSegment) :
    routeSpecificity (s :: rest) = s.specificity :: routeSpecificity rest := by
  simp [routeSpecificity, h]

lemma sameSegment_kind {s' : HttpRouteSegment} (h : sameSegment s s' = true) :
    s.isCatchAll = s'.isCatchAll ∧ s.specificity = s'.specificity := by
  cases s <;> cases s' <;> simp_all [sameSegment, HttpRouteSegment.isCatchAll,
    HttpRouteSegment.specificity]

lemma SamePattern.routeSpecificity_eq (h : SamePattern segments segments') :
    routeSpecificity segments = routeSpecificity segments' := by
  have hmap : segments.map HttpRouteSegment.specificity =
      segments'.map HttpRouteSegment.specificity := by
    induction h with
    | nil => rfl
    | cons hsame _ ih => rw [map_cons, map_cons, (sameSegment_kind hsame).2, ih]
  have hany : segments.any HttpRouteSegment.isCatchAll =
      segments'.any HttpRouteSegment.isCatchAll := by
    clear hmap
    induction h with
    | nil => rfl
    | cons hsame _ ih => rw [any_cons, any_cons, (sameSegment_kind hsame).1, ih]
  rw [routeSpecificity, routeSpecificity, hmap, hany]

/-- The vectors order patterns as they are compared. -/
lemma Better.specificity_lt (h : Better segments segments') (hpattern : Pattern segments)
    (hpattern' : Pattern segments') : routeSpecificity segments' < routeSpecificity segments := by
  induction h with
  | literal => exact cons_lt_cons_iff.mpr (Or.inl (one_lt_two (α := Int)))
  | literalCatchAll => exact cons_lt_cons_iff.mpr (Or.inl (two_pos (α := Int)))
  | parameter => exact cons_lt_cons_iff.mpr (Or.inl (one_pos (α := Int)))
  | exact => exact cons_lt_cons_iff.mpr (Or.inl (three_pos (α := Int)))
  | @later segment segment' rest rest' hsame hrest ih => ?_
  rcases sameSegment_kind hsame with ⟨hkind, hspecificity⟩
  cases hcatch : segment.isCatchAll with
  | true =>
    -- nothing follows a catch-all, so nothing is better there
    have hnil := hpattern.tail.2 hcatch
    have hnil' := hpattern'.tail.2 (hkind ▸ hcatch)
    subst hnil hnil'
    cases hrest
  | false =>
    rw [routeSpecificity_cons hcatch, routeSpecificity_cons (hkind ▸ hcatch), hspecificity]
    exact cons_lt_cons_iff.mpr (Or.inr ⟨rfl, ih hpattern.tail.1 hpattern'.tail.1⟩)

/-! ## Registered routes -/

/-- A router that was built by registrations. -/
inductive Built : HttpRouterData → Prop
  | new : Built httpRouterNew
  | route {data data' : HttpRouterData} {method path : Option Value}
      {handler : Option HttpServerClosure} (h : Built data)
      (hroute : muxNetHttpRouterRoute (some data) method path handler = .ok data') : Built data'
  | middleware {data : HttpRouterData} (h : Built data) (entry : HttpMiddlewareEntry) :
      Built { data with middleware := data.middleware ++ [entry] }

/-- A route as it is registered. -/
structure Compiled (route : HttpRouteEntry) : Prop where
  pattern : Pattern route.segments
  names : (captureNames route.segments).Nodup
  specificity : route.specificity = routeSpecificity route.segments

lemma eqIgnoreAsciiCase_iff {s t : List Char} :
    eqIgnoreAsciiCase s t = true ↔ toAsciiLowercase s = toAsciiLowercase t := by
  simp [eqIgnoreAsciiCase]

variable {route : HttpRouteEntry}

/-- Routes of one method with the same pattern are ambiguous. -/
lemma isAmbiguous_of_samePattern {route' : HttpRouteEntry} {method : List Char}
    (hcompiled : Compiled route) (hcompiled' : Compiled route')
    (hmethod : eqIgnoreAsciiCase route.method method = true)
    (h : SamePattern route.segments route'.segments) :
    isAmbiguous method route'.segments route'.specificity route = true := by
  have hzip : (route.segments.zip route'.segments).all
      (fun pair => sameSegment pair.1 pair.2) = true := by
    generalize route.segments = segments at h
    generalize route'.segments = segments' at h
    induction h with
    | nil => rfl
    | cons hsame _ ih => simp [hsame, ih]
  rw [isAmbiguous, hmethod, hzip, hcompiled.specificity, hcompiled'.specificity,
    h.routeSpecificity_eq]
  simp

variable {data : HttpRouterData}

/-- What registration adds is compiled and not ambiguous. -/
lemma muxNetHttpRouterRoute_eq_ok {data' : HttpRouterData} {method path : Option Value}
    {handler : Option HttpServerClosure}
    (h : muxNetHttpRouterRoute (some data) method path handler = .ok data') :
    ∃ name route, data'.routes = data.routes ++ [route] ∧ route.method = toAsciiUppercase name ∧
      Compiled route ∧
      ∀ r ∈ data.routes, isAmbiguous name route.segments route.specificity r = false := by
  unfold muxNetHttpRouterRoute at h
  split at h
  · cases h
  · rename_i data₀ method path hdata
    cases hdata
    split_ifs at h
    obtain ⟨⟨segments, specificity⟩, hcompile, h⟩ := bind_eq_ok h
    rcases handler with _ | closure
    · cases h
    dsimp only at h
    split_ifs at h with hboxed hambiguous
    cases h
    refine ⟨method.toList, _, rfl, rfl, ?_, ?_⟩
    · unfold compileHttpRoute at hcompile
      split_ifs at hcompile
      obtain ⟨raws, -, hcompile⟩ := bind_eq_ok hcompile
      obtain ⟨segments', hsegments, hcompile⟩ := bind_eq_ok hcompile
      cases hcompile
      obtain ⟨hpattern, hnodup, -⟩ := compileSegments_eq_ok hsegments
      exact ⟨hpattern, hnodup, rfl⟩
    · simpa [any_eq_true] using hambiguous
  · cases h
  · cases h

/-- No later route is ambiguous with an earlier one. -/
def UnambiguousRoutes (routes : List HttpRouteEntry) : Prop :=
  routes.Pairwise fun r r' => isAmbiguous r'.method r'.segments r'.specificity r = false

lemma Built.invariant (h : Built data) :
    (∀ r ∈ data.routes, Compiled r) ∧ UnambiguousRoutes data.routes := by
  induction h with
  | new => exact ⟨by simp [httpRouterNew], List.Pairwise.nil⟩
  | middleware _ _ ih => exact ih
  | route _ hroute ih => ?_
  obtain ⟨name, route, hroutes, hmethod, hcompiled, hnew⟩ := muxNetHttpRouterRoute_eq_ok hroute
  rw [hroutes]
  constructor
  · intro r hr
    rcases mem_append.mp hr with hr | hr
    · exact ih.1 r hr
    · rwa [mem_singleton.mp hr]
  · refine pairwise_append.mpr ⟨ih.2, pairwise_singleton _ _, fun r hr r' hr' => ?_⟩
    cases mem_singleton.mp hr'
    have := hnew r hr
    rwa [isAmbiguous, eqIgnoreAsciiCase, ← toAsciiLowercase_toAsciiUppercase name,
      ← hmethod] at this

/-- The route is one for the request. -/
def Matches (method : List Char) (path : List (List Char)) (route : HttpRouteEntry) : Prop :=
  eqIgnoreAsciiCase route.method method = true ∧ httpRouteMatch route path ≠ none

variable {r r' : HttpRouteEntry}

/-- Of two routes for a request one is better, or they are the same route. -/
lemma Built.compare (h : Built data) {method : List Char} {path : List (List Char)}
    (hr : r ∈ data.routes) (hr' : r' ∈ data.routes) (hmatch : Matches method path r)
    (hmatch' : Matches method path r') :
    Better r.segments r'.segments ∨ Better r'.segments r.segments ∨ r = r' := by
  obtain ⟨hcompiled, hunambiguous⟩ := h.invariant
  have hc := hcompiled r hr
  have hc' := hcompiled r' hr'
  rcases compare_patterns hc.pattern hc'.pattern hmatch.2 hmatch'.2 with hbetter | hbetter | hsame
  · exact Or.inl hbetter
  · exact Or.inr (Or.inl hbetter)
  right
  right
  have hmethods : toAsciiLowercase r.method = toAsciiLowercase r'.method :=
    (eqIgnoreAsciiCase_iff.mp hmatch.1).trans (eqIgnoreAsciiCase_iff.mp hmatch'.1).symm
  have hambiguous := isAmbiguous_of_samePattern hc hc' (eqIgnoreAsciiCase_iff.mpr hmethods) hsame
  have hambiguous' := isAmbiguous_of_samePattern hc' hc
    (eqIgnoreAsciiCase_iff.mpr hmethods.symm) hsame.symm
  by_contra hne
  have hsymm : data.routes.Pairwise fun r r' =>
      isAmbiguous r'.method r'.segments r'.specificity r = false ∨
        isAmbiguous r.method r.segments r.specificity r' = false :=
    hunambiguous.imp Or.inl
  rcases @Pairwise.forall _ _ _ ⟨fun _ _ => Or.symm⟩ hsymm _ hr _ hr' hne with hnot | hnot
  · rw [hambiguous] at hnot
    cases hnot
  · rw [hambiguous'] at hnot
    cases hnot

/-! ## The selected route -/

section Selection

variable {routes : List HttpRouteEntry} {method : List Char} {path : List (List Char)}

/-- What is selected among the first `n` routes. -/
def Selected (routes : List HttpRouteEntry) (method : List Char) (path : List (List Char)) (n : Nat) :
    Option HttpRouteMatch → Prop
  | none => ∀ r ∈ routes.take n, ¬ Matches method path r
  | some (index, captures) => ∃ r, routes[index]? = some r ∧
      eqIgnoreAsciiCase r.method method = true ∧ httpRouteMatch r path = some captures ∧
      ∀ r' ∈ routes.take n, Matches method path r' → ¬ r.specificity < r'.specificity

lemma selectStep_selected {n : Nat} (hroute : routes[n]? = some route)
    {selected : Option HttpRouteMatch} (h : Selected routes method path n selected) :
    Selected routes method path (n + 1) (selectStep routes method path selected (route, n)) := by
  have htake : ∀ {P : HttpRouteEntry → Prop}, (∀ r ∈ routes.take n, P r) → P route →
      ∀ r ∈ routes.take (n + 1), P r := by
    intro P hfirst hlast
    rw [take_add_one, hroute]
    exact forall_mem_append.mpr ⟨hfirst, forall_mem_singleton.mpr hlast⟩
  -- a route that does not match changes nothing
  have hskip : ¬ Matches method path route → Selected routes method path (n + 1) selected := by
    intro hno
    cases selected with
    | none => exact htake h hno
    | some selected =>
      rcases h with ⟨r, hget, hmethod, hcaptures, hbest⟩
      exact ⟨r, hget, hmethod, hcaptures, htake hbest fun hmatch => absurd hmatch hno⟩
  unfold selectStep
  by_cases hmethod : eqIgnoreAsciiCase route.method method = true
  · simp only [hmethod, Bool.not_true, Bool.false_eq_true, if_false]
    rcases hmatch : httpRouteMatch route path with _ | captures
    · exact hskip fun hm => hm.2 hmatch
    cases selected with
    | none =>
      refine ⟨route, hroute, hmethod, hmatch, htake ?_ fun _ => lt_irrefl _⟩
      exact fun r' hr' hmatch' => absurd hmatch' (h r' hr')
    | some selected => ?_
    rcases h with ⟨r, hget, hmethod', hcaptures, hbest⟩
    by_cases hlt : r.specificity < route.specificity
    · simp only [isBetter, hget, hlt, decide_true, if_true]
      refine ⟨route, hroute, hmethod, hmatch, htake ?_ fun _ => lt_irrefl _⟩
      exact fun r' hr' hmatch' hless => hbest r' hr' hmatch' (lt_trans hlt hless)
    · simp only [isBetter, hget, hlt, decide_false, Bool.false_eq_true, if_false]
      exact ⟨r, hget, hmethod', hcaptures, htake hbest fun _ => hlt⟩
  · simp only [hmethod, Bool.not_false, if_true]
    exact hskip fun hm => hmethod hm.1

/-- The selected route matches, and no other match has a greater vector. -/
lemma selectRoute_selected :
    Selected routes method path routes.length (selectRoute routes method path) := by
  have hfold : ∀ front back, routes = front ++ back → Selected routes method path front.length
        (front.zipIdx.foldl (selectStep routes method path) none) := by
    intro front
    induction front using List.reverseRecOn with
    | nil =>
      intro back _ r hr
      simp at hr
    | append_singleton front route ih => ?_
    intro back hroutes
    rw [append_assoc] at hroutes
    have hget : routes[front.length]? = some route := by
      rw [hroutes, List.getElem?_append_right (le_refl _)]
      simp
    rw [zipIdx_append, foldl_append, length_append]
    have hstep := selectStep_selected hget (ih _ hroutes)
    simpa using hstep
  exact hfold routes [] (append_nil _).symm

end Selection

/-! ## Captures -/

/-- A segment of a pattern with its capture in the place of its name. -/
def HttpRouteSegment.substitute (captures : Captures) : HttpRouteSegment → List Char
  | .literal text => text
  | .parameter name | .catchAll name => (AssocList.lookup captures name).getD []

/-- The pattern of a route with captures in the place of their names. -/
def substituteRoute (captures : Captures) (segments : List HttpRouteSegment) : List Char :=
  '/' :: joinSegments (segments.map (HttpRouteSegment.substitute captures))

/-- The path of a request, decoded segment by segment. -/
def decodedPath (path : List (List Char)) : List Char :=
  '/' :: joinSegments path

variable {name : List Char}

section

variable (hnew : AssocList.contains captures name = false)

include hnew

lemma contains_insert_of_ne {name' value : List Char} (hne : name ≠ name') :
    AssocList.contains (AssocList.insert captures name value) name' =
      AssocList.contains captures name' := by
  rw [AssocList.insert_eq_append hnew]
  simp [AssocList.contains, hne]

lemma lookup_insert_self (value : List Char) :
    AssocList.contains (AssocList.insert captures name value) name = true ∧
      AssocList.lookup (AssocList.insert captures name value) name = some value := by
  rw [AssocList.insert_eq_append hnew, AssocList.lookup_append_singleton, hnew]
  simp [AssocList.contains]

lemma lookup_insert_of_contains {name' : List Char} (h : AssocList.contains captures name' = true)
    (value : List Char) :
    AssocList.contains (AssocList.insert captures name value) name' = true ∧
      AssocList.lookup (AssocList.insert captures name value) name' =
        AssocList.lookup captures name' := by
  have hne : name ≠ name' := by
    rintro rfl
    rw [hnew] at h
    cases h
  rw [contains_insert_of_ne hnew hne, AssocList.insert_eq_append hnew,
    AssocList.lookup_append_singleton, h]
  exact ⟨rfl, rfl⟩

end

/-- The segments of the path, of which a catch-all has those that are left. -/
lemma matchSegments_substitute {path : List (List Char)} {result : Captures}
    (hpattern : Pattern segments) (hnames : (captureNames segments).Nodup)
    (hnew : ∀ name ∈ captureNames segments, AssocList.contains captures name = false)
    (h : matchSegments segments path captures = some result) :
    (∀ name, AssocList.contains captures name = true →
      AssocList.lookup result name = AssocList.lookup captures name) ∧
    ∃ front rest, path = front ++ rest ∧
      ((rest = [] ∧ segments.map (HttpRouteSegment.substitute result) = front) ∨
        segments.map (HttpRouteSegment.substitute result) = front ++ [joinSegments rest]) := by
  induction segments generalizing path captures with
  | nil =>
    cases path with
    | nil =>
      cases h
      exact ⟨fun _ _ => rfl, [], [], rfl, Or.inl ⟨rfl, rfl⟩⟩
    | cons p path => cases h
  | cons s segments ih => ?_
  cases s with
  | literal text =>
    rcases path with _ | ⟨p, path⟩
    · cases h
    simp only [matchSegments] at h
    split_ifs at h with hp
    obtain ⟨hkept, front, rest, rfl, hmap⟩ := ih hpattern hnames hnew h
    refine ⟨hkept, p :: front, rest, rfl, ?_⟩
    rcases hmap with ⟨hrest, hmap⟩ | hmap
    · exact Or.inl ⟨hrest, by rw [map_cons, hmap, hp]; rfl⟩
    · exact Or.inr (by rw [map_cons, hmap, hp]; rfl)
  | parameter name =>
    rcases path with _ | ⟨p, path⟩
    · cases h
    have hfresh := hnew name mem_cons_self
    obtain ⟨hname, hnames⟩ := nodup_cons.mp hnames
    have hnew' : ∀ n ∈ captureNames segments,
        AssocList.contains (AssocList.insert captures name p) n = false := by
      intro n hn
      rw [contains_insert_of_ne hfresh (fun heq => hname (heq ▸ hn))]
      exact hnew n (mem_cons_of_mem _ hn)
    obtain ⟨hkept, front, rest, rfl, hmap⟩ := ih hpattern hnames hnew' h
    have hself := lookup_insert_self hfresh p
    have hvalue : HttpRouteSegment.substitute result (.parameter name) = p := by
      rw [HttpRouteSegment.substitute, hkept name hself.1, hself.2]
      rfl
    refine ⟨fun n hn => ?_, p :: front, rest, rfl, ?_⟩
    · have hother := lookup_insert_of_contains hfresh hn p
      rw [hkept n hother.1, hother.2]
    · rcases hmap with ⟨hrest, hmap⟩ | hmap
      · exact Or.inl ⟨hrest, by rw [map_cons, hmap, hvalue]⟩
      · exact Or.inr (by rw [map_cons, hmap, hvalue]; rfl)
  | catchAll name => ?_
  have hnil : segments = [] := hpattern
  subst hnil
  cases h
  have hfresh := hnew name mem_cons_self
  have hself := lookup_insert_self hfresh (joinSegments path)
  refine ⟨fun n hn => (lookup_insert_of_contains hfresh hn _).2, [], path, rfl, Or.inr ?_⟩
  rw [map_singleton, HttpRouteSegment.substitute, hself.2]
  rfl

lemma joinSegments_cons {rest : List (List Char)} (h : rest ≠ []) (p : List Char) :
    joinSegments (p :: rest) = p ++ '/' :: joinSegments rest := by
  cases rest with
  | nil => exact absurd rfl h
  | cons q rest => rw [joinSegments, List.intercalate_cons_cons, append_assoc]; rfl

lemma joinSegments_append {front rest : List (List Char)} (h : rest ≠ []) :
    joinSegments (front ++ [joinSegments rest]) = joinSegments (front ++ rest) := by
  induction front with
  | nil => exact append_nil _
  | cons p front ih =>
    rw [cons_append, cons_append, joinSegments_cons (by simp), joinSegments_cons (by simp [h]), ih]

/-- An empty last segment makes a slash at the end. -/
lemma joinSegments_concat_nil {front : List (List Char)} (h : front ≠ []) :
    joinSegments (front ++ [[]]) = joinSegments front ++ ['/'] := by
  induction front with
  | nil => exact absurd rfl h
  | cons p front ih => ?_
  by_cases hfront : front = []
  · subst hfront
    simp [joinSegments]
  · rw [cons_append, joinSegments_cons (by simp), joinSegments_cons hfront, ih hfront, append_assoc]
    rfl

/-- The captures of a match, put into the pattern, give the path. A catch-all that captures
nothing after other segments leaves its slash behind. -/
theorem substitute_eq (hcompiled : Compiled route) {path : List (List Char)}
    (h : httpRouteMatch route path = some captures) :
    substituteRoute captures route.segments =
      decodedPath path ++ if path ≠ [] ∧ path.length < route.segments.length then ['/'] else [] := by
  obtain ⟨-, front, rest, rfl, ⟨rfl, hmap⟩ | hmap⟩ := matchSegments_substitute hcompiled.pattern
    hcompiled.names (fun _ _ => rfl) h
  · have hlength : route.segments.length = front.length := by rw [← hmap, length_map]
    rw [if_neg (by simp [hlength]), substituteRoute, hmap, append_nil, append_nil]
    rfl
  have hlength : route.segments.length = front.length + 1 := by
    have := congrArg List.length hmap
    rwa [length_map, length_append, length_singleton] at this
  rw [substituteRoute, hmap, hlength]
  by_cases hrest : rest = []
  · subst hrest
    rw [append_nil]
    by_cases hfront : front = []
    · subst hfront
      rfl
    · have hempty : joinSegments [] = [] := rfl
      rw [if_pos ⟨hfront, Nat.lt_succ_self _⟩, hempty, joinSegments_concat_nil hfront]
      rfl
  · have hpos := length_pos_iff.mpr hrest
    rw [if_neg (by rw [length_append]; omega), joinSegments_append hrest, append_nil]
    rfl

/-! ## The best match -/

/-- No match has a greater vector. -/
def Greatest (data : HttpRouterData) (method : List Char) (path : List (List Char))
    (r : HttpRouteEntry) : Prop :=
  Matches method path r ∧
    ∀ r' ∈ data.routes, Matches method path r' → ¬ r.specificity < r'.specificity

/-- The route that is selected for a request, with its captures. -/
def selectedRoute (data : HttpRouterData) (method url : List Char) :
    Except String (Option (HttpRouteEntry × Captures)) :=
  (httpRouterRouteMatch (some data) method url).map fun selected =>
    selected.bind fun found => data.routes[found.1]?.map fun r => (r, found.2)

lemma Built.nodup (h : Built data) : data.routes.Nodup := by
  obtain ⟨hcompiled, hunambiguous⟩ := h.invariant
  apply hunambiguous.imp_of_mem
  rintro r r' hr hr' hnot rfl
  have hsame : SamePattern r.segments r.segments := by
    apply forall₂_same.mpr
    intro s _
    cases s <;> simp [sameSegment]
  rw [isAmbiguous_of_samePattern (hcompiled r hr) (hcompiled r hr)
    (eqIgnoreAsciiCase_iff.mpr rfl) hsame] at hnot
  cases hnot

lemma Compiled.specificity_lt (hc : Compiled r) (hc' : Compiled r')
    (h : Better r.segments r'.segments) : r'.specificity < r.specificity := by
  rw [hc.specificity, hc'.specificity]
  exact h.specificity_lt hc.pattern hc'.pattern

section

variable (h : Built data) {method : List Char} {path : List (List Char)}
    (hr : r ∈ data.routes) (hr' : r' ∈ data.routes) (hgreatest : Greatest data method path r)

include h hr hr' hgreatest

lemma Built.better_of_greatest (hmatch' : Matches method path r') :
    r' = r ∨ Better r.segments r'.segments := by
  rcases h.invariant with ⟨hcompiled, -⟩
  rcases h.compare hr hr' hgreatest.1 hmatch' with hbetter | hbetter | heq
  · exact Or.inr hbetter
  · have hlt := (hcompiled r' hr').specificity_lt (hcompiled r hr) hbetter
    exact absurd hlt (hgreatest.2 r' hr' hmatch')
  · exact Or.inl heq.symm

lemma Built.greatest_unique (hgreatest' : Greatest data method path r') : r = r' := by
  rcases h.invariant with ⟨hcompiled, -⟩
  rcases h.better_of_greatest hr hr' hgreatest hgreatest'.1 with heq | hbetter
  · exact heq.symm
  · have hlt := (hcompiled r hr).specificity_lt (hcompiled r' hr') hbetter
    exact absurd hlt (hgreatest'.2 r hr hgreatest.1)

end

/-- What is selected: nothing if no route matches, and the greatest match otherwise. -/
theorem selectedRoute_cases (data : HttpRouterData) (method : List Char) {url : List Char}
    {path : List (List Char)} (hurl : requestPathSegments url = .ok path) :
    (selectedRoute data method url = .ok none ∧ ∀ r ∈ data.routes, ¬ Matches method path r) ∨
      ∃ r captures, selectedRoute data method url = .ok (some (r, captures)) ∧ r ∈ data.routes ∧
        httpRouteMatch r path = some captures ∧ Greatest data method path r := by
  have h : Selected data.routes method path data.routes.length
      (selectRoute data.routes method path) := selectRoute_selected
  simp only [selectedRoute, httpRouterRouteMatch, hurl, bind, Except.bind, Except.map]
  cases hroute : selectRoute data.routes method path with
  | none =>
    rw [hroute, Selected, take_length] at h
    exact Or.inl ⟨rfl, h⟩
  | some found => ?_
  obtain ⟨index, captures⟩ := found
  rw [hroute] at h
  obtain ⟨r, hget, hmethod, hcaptures, hbest⟩ := h
  rw [take_length] at hbest
  have hmatch : Matches method path r := ⟨hmethod, by rw [hcaptures]; exact Option.some_ne_none _⟩
  refine Or.inr ⟨r, captures, ?_, mem_of_getElem? hget, hcaptures, hmatch, hbest⟩
  simp [hget]

/-- At most one match has the greatest vector; it is selected, in whatever order the routes
were registered; it is the best match; and its captures reproduce the path, but for the
slash before a catch-all that captures nothing. -/
theorem router_selects_best {data : HttpRouterData} (hbuilt : Built data) (method : List Char)
    {url : List Char} {path : List (List Char)} (hurl : requestPathSegments url = .ok path) :
    (∀ (i j : Nat) r r', data.routes[i]? = some r → data.routes[j]? = some r' →
      Greatest data method path r → Greatest data method path r' → i = j) ∧
    (∀ data', Built data' → data'.routes.Perm data.routes →
      selectedRoute data' method url = selectedRoute data method url) ∧
    ((selectedRoute data method url = .ok none ∧ ∀ r ∈ data.routes, ¬ Matches method path r) ∨
      ∃ r captures, selectedRoute data method url = .ok (some (r, captures)) ∧ r ∈ data.routes ∧
        Matches method path r ∧
        (∀ r' ∈ data.routes, Matches method path r' → r' = r ∨ Better r.segments r'.segments) ∧
        substituteRoute captures r.segments = decodedPath path ++
          if path ≠ [] ∧ path.length < r.segments.length then ['/'] else []) := by
  refine ⟨?_, ?_, ?_⟩
  · intro i j r r' hi hj hgreatest hgreatest'
    have heq := hbuilt.greatest_unique (mem_of_getElem? hi) (mem_of_getElem? hj)
      hgreatest hgreatest'
    have hlt : i < data.routes.length := (List.getElem?_eq_some_iff.mp hi).1
    apply (List.getElem?_inj hlt hbuilt.nodup).mp
    rw [hi, hj, heq]
  · intro data' hbuilt' hperm
    have hmem : ∀ {r}, r ∈ data'.routes ↔ r ∈ data.routes := hperm.mem_iff
    rcases selectedRoute_cases data method hurl with ⟨hnone, hno⟩ |
      ⟨r, captures, hsome, hr, hcaptures, hgreatest⟩
    · rcases selectedRoute_cases data' method hurl with ⟨hnone', -⟩ |
        ⟨r', _, -, hr', -, hgreatest'⟩
      · rw [hnone, hnone']
      · exact absurd hgreatest'.1 (hno r' (hmem.mp hr'))
    · rcases selectedRoute_cases data' method hurl with ⟨-, hno'⟩ |
        ⟨r', captures', hsome', hr', hcaptures', hgreatest'⟩
      · exact absurd hgreatest.1 (hno' r (hmem.mpr hr))
      have hsame : Greatest data method path r' :=
        ⟨hgreatest'.1, fun q hq => hgreatest'.2 q (hmem.mpr hq)⟩
      cases hbuilt.greatest_unique hr (hmem.mp hr') hgreatest hsame
      rw [hcaptures] at hcaptures'
      cases hcaptures'
      rw [hsome, hsome']
  · rcases selectedRoute_cases data method hurl with hnone |
      ⟨r, captures, hsome, hr, hcaptures, hgreatest⟩
    · exact Or.inl hnone
    · exact Or.inr ⟨r, captures, hsome, hr, hgreatest.1,
        fun r' hr' hmatch' => hbuilt.better_of_greatest hr hr' hgreatest hmatch',
        substitute_eq (hbuilt.invariant.1 r hr) hcaptures⟩

/-- A route for the files below a directory. -/
def filesRoute : HttpRouteEntry where
  method := "GET".toList
  segments := [.literal "a".toList, .catchAll "rest".toList]
  specificity := [2, 0]
  handler := 1

/-- A route for the files of one subdirectory. -/
def fileRoute : HttpRouteEntry where
  method := "GET".toList
  segments := [.literal "a".toList, .literal "b".toList, .parameter "file".toList]
  specificity := [2, 2, 1, 3]
  handler := 2

/-- A router with the two routes. -/
def filesRouter : HttpRouterData where
  routes := [filesRoute, fileRoute]
  middleware := []

lemma filesRouter_built : Built filesRouter := by
  have hroute : muxNetHttpRouterRoute (some httpRouterNew) (some (.string "GET"))
      (some (.string "/a/\x7b...rest\x7d")) (some ⟨1, true⟩) = .ok ⟨[filesRoute], []⟩ := rfl
  have hroute' : muxNetHttpRouterRoute (some ⟨[filesRoute], []⟩) (some (.string "GET"))
      (some (.string "/a/b/\x7bfile\x7d")) (some ⟨2, true⟩) = .ok filesRouter := rfl
  exact .route (.route .new hroute) hroute'

/-- Both routes match the path of a file, and the second is better. -/
theorem router_selects_file :
    ∃ captures, selectedRoute filesRouter "get".toList "/a/b/c?d".toList =
        .ok (some (fileRoute, captures)) ∧
      (∀ r ∈ filesRouter.routes, Matches "get".toList ["a".toList, "b".toList, "c".toList] r →
        r = fileRoute ∨ Better fileRoute.segments r.segments) ∧
      substituteRoute captures fileRoute.segments = "/a/b/c".toList := by
  have hurl : requestPathSegments "/a/b/c?d".toList =
      .ok ["a".toList, "b".toList, "c".toList] := rfl
  have hmatch : Matches "get".toList ["a".toList, "b".toList, "c".toList] fileRoute := by
    constructor
    · rfl
    · decide
  have hmem : fileRoute ∈ filesRouter.routes := mem_cons_of_mem _ mem_cons_self
  rcases (router_selects_best filesRouter_built "get".toList hurl).2.2 with ⟨-, hno⟩ |
    ⟨r, captures, hselected, hr, -, hbest, htext⟩
  · exact absurd hmatch (hno _ hmem)
  · rcases mem_pair.mp hr with rfl | rfl
    · rcases hbest _ hmem hmatch with hsame | hbetter
      · exact absurd hsame (by decide)
      · cases hbetter with
        | later _ h =>
          cases h with
          | later hsame _ => cases hsame
    · exact ⟨captures, hselected, hbest, htext⟩

/-- The directory itself: its captures are those of the path with a slash at the end. -/
theorem directory_is_not_reproduced :
    ∃ r captures, selectedRoute filesRouter "GET".toList "/a".toList = .ok (some (r, captures)) ∧
      requestPathSegments "/a".toList = .ok ["a".toList] ∧
      selectedRoute filesRouter "GET".toList "/a/".toList = .ok (some (r, captures)) ∧
      substituteRoute captures r.segments ≠ decodedPath ["a".toList] :=
  ⟨_, _, rfl, rfl, rfl, by decide⟩

/-! ## The closures of a router -/

def muxNetHttpRouterUse (router : Option HttpRouterData) (middleware : Option HttpServerClosure) :
    Except String HttpRouterData :=
  match router, middleware with
  | none, _ => .error "invalid HttpRouter handle"
  | some _, none => .error "HTTP middleware is null"
  | some data, some closure =>
    if !closure.boxed then .error "HTTP middleware must return result<HttpResponse, HttpError>"
    else .ok { data with middleware := data.middleware ++ [.callback closure.address] }

/-- The method as it is given and the route as it is stored, if the registration passes the
checks before the handler is retained. -/
def checkedRoute (method path : Option Value) (handler : Option HttpServerClosure) :
    Option (List Char × HttpRouteEntry) :=
  match method, path, handler with
  | some (.string method), some (.string path), some closure =>
    match compileHttpRoute path.toList with
    | .ok (segments, specificity) =>
      if method.toList.isEmpty || !isHttpToken method.toList || !closure.boxed then none
      else
        some (method.toList, ⟨toAsciiUppercase method.toList, segments, specificity, closure.address⟩)
    | .error _ => none
  | _, _, _ => none

inductive Registration where
  | route (method path : Option Value) (handler : Option HttpServerClosure)
  | use (middleware : Option HttpServerClosure)

/-- The router and the closures retained for it, after one more registration. -/
def register (s : HttpRouterData × Multiset Nat) : Registration → HttpRouterData × Multiset Nat
  | .route method path handler =>
    ((muxNetHttpRouterRoute (some s.1) method path handler).toOption.getD s.1,
      s.2 + (checkedRoute method path handler).toList.map (·.2.handler))
  | .use middleware =>
    ((muxNetHttpRouterUse (some s.1) middleware).toOption.getD s.1,
      s.2 + (middleware.filter HttpServerClosure.boxed).toList.map HttpServerClosure.address)

/-- The closures that the last release of a router releases: those that it stores. -/
def releaseHttpRouterHandle (data : HttpRouterData) : Multiset Nat :=
  data.routes.map HttpRouteEntry.handler + data.middleware.filterMap fun entry =>
    match entry with
    | .callback callback => some callback
    | _ => none

/-- A route passes the checks and is refused because of another one. -/
def Registration.Clashes (data : HttpRouterData) : Registration → Prop
  | .route method path handler => ∃ name route, checkedRoute method path handler = some (name, route) ∧
      ∃ r ∈ data.routes, isAmbiguous name route.segments route.specificity r = true
  | .use _ => False

lemma muxNetHttpRouterRoute_toOption (method path : Option Value)
    (handler : Option HttpServerClosure) :
    (muxNetHttpRouterRoute (some data) method path handler).toOption =
      (checkedRoute method path handler).bind fun checked =>
        if data.routes.any (isAmbiguous checked.1 checked.2.segments checked.2.specificity) then none
        else some { data with routes := data.routes ++ [checked.2] } := by
  unfold muxNetHttpRouterRoute checkedRoute
  split
  · contradiction
  · rename_i method path hdata
    cases hdata
    rcases handler with _ | ⟨address, boxed⟩ <;> dsimp only <;>
      rcases compileHttpRoute path.toList with e | ⟨segments, specificity⟩ <;>
      cases method.toList.isEmpty <;> cases isHttpToken method.toList <;> try rfl
    cases boxed
    · rfl
    dsimp only [bind, Except.bind]
    simp only [Bool.not_true, Bool.or_self, Bool.false_eq_true, if_false, Option.bind_some]
    split_ifs <;> rfl
  all_goals
    split
    · simp_all
    · rfl

/-- What a registration retains is stored, but for the handler of a route that clashes. -/
lemma register_balanced {s : HttpRouterData × Multiset Nat} (r : Registration)
    (hs : s.2 = releaseHttpRouterHandle s.1) :
    (register s r).2 = releaseHttpRouterHandle (register s r).1 ↔ ¬ r.Clashes s.1 := by
  cases r with
  | route method path handler =>
    simp only [register, muxNetHttpRouterRoute_toOption, Registration.Clashes, hs]
    rcases checkedRoute method path handler with _ | ⟨name, route⟩
    · simp
    simp only [Option.bind_some, any_eq_true, Option.some.injEq, Prod.mk.injEq]
    split_ifs with hclash
    · simpa using hclash
    · refine iff_of_true ?_ (by simpa using hclash)
      simp only [Option.getD_some, releaseHttpRouterHandle, map_append, ← Multiset.coe_add,
        Option.toList_some, map_singleton, add_right_comm]
  | use middleware =>
    refine iff_of_true ?_ (fun h => h)
    rcases middleware with _ | ⟨address, _ | _⟩ <;>
      simp [register, muxNetHttpRouterUse, Except.toOption, Option.filter, releaseHttpRouterHandle,
        hs, ← Multiset.coe_add, add_assoc]

/-- At every point of a sequence of registrations the closures are retained as often as they
are stored and will be released, exactly if no route clashes. -/
theorem closures_balanced_iff (rs : List Registration) :
    (∀ before, before <+: rs → (before.foldl register (httpRouterNew, 0)).2 =
      releaseHttpRouterHandle (before.foldl register (httpRouterNew, 0)).1) ↔
    ∀ before r, before ++ [r] <+: rs → ¬ r.Clashes (before.foldl register (httpRouterNew, 0)).1 := by
  constructor
  · intro h before r hr
    have hafter := h _ hr
    rw [foldl_append] at hafter
    exact (register_balanced r (h before ((List.prefix_append _ _).trans hr))).mp hafter
  intro h before hbefore
  induction before using List.reverseRecOn with
  | nil => rfl
  | append_singleton before r ih =>
    rw [foldl_append]
    exact (register_balanced r (ih ((List.prefix_append _ _).trans hbefore))).mpr
      (h before r hbefore)

/-- The second registration of a route is refused, and its handler stays retained. -/
theorem refused_handler_is_retained :
    let route := Registration.route (some (.string "GET")) (some (.string "/")) (some ⟨1, true⟩)
    let s := [route, route].foldl register (httpRouterNew, 0)
    s.2 = {1, 1} ∧ releaseHttpRouterHandle s.1 = {1} :=
  ⟨rfl, rfl⟩

end MuxRuntime.Http
