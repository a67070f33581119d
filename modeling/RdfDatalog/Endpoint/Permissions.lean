import RdfDatalog.Endpoint.Router

namespace RdfDatalog.Endpoint

open UriPath

section Paths

theorem UriPath.text_cons (s : Segment) (path : UriPath) :
    UriPath.text (s :: path) = '/' :: (s.text ++ UriPath.text path) := rfl

theorem UriPath.text_append (path path' : UriPath) :
    UriPath.text (path ++ path') = UriPath.text path ++ UriPath.text path' :=
  List.flatMap_append

theorem UriPath.count_slash (path : UriPath) : (UriPath.text path).count '/' = path.length := by
  induction path with
  | nil => rfl
  | cons s path ih =>
    have hs : s.text.count '/' = 0 := List.count_eq_zero.mpr s.slashFree
    rw [text_cons, List.count_cons_self, List.count_append, hs, ih, List.length_cons]
    omega

theorem slash_suffix_iff {word : List Char} (hword : '/' ∉ word) (path : UriPath) :
    '/' :: word <:+ UriPath.text path ↔ ∃ s ∈ path.getLast?, s.text = word := by
  induction path using List.reverseRecOn with
  | nil => simp [UriPath.text]
  | append_singleton path s _ =>
    rw [text_append, List.getLast?_concat]
    have hs : UriPath.text [s] = '/' :: s.text := by
      rw [text_cons]
      simp [UriPath.text]
    rw [hs]
    constructor
    · intro ⟨front, h⟩
      refine ⟨s, rfl, ?_⟩
      -- what follows the last slash is the same on both sides
      have hlast : ∀ (a w : List Char), '/' ∉ w →
          (a ++ '/' :: w).reverse.takeWhile (· ≠ '/') = w.reverse := by
        intro a w hw
        rw [List.reverse_append, List.reverse_cons, List.append_assoc,
          List.takeWhile_append_of_pos]
        · simp
        · intro c hc
          have hne : c ≠ '/' := fun hc' => hw (hc' ▸ List.mem_reverse.mp hc)
          simpa using hne
      have hleft := hlast front word hword
      rw [h, hlast _ _ s.slashFree] at hleft
      exact List.reverse_injective hleft
    · intro ⟨s', hs', htext⟩
      cases hs'
      exact ⟨UriPath.text path, by rw [htext]⟩

end Paths

/-- The last segment of a path is `word`. -/
def UriPath.lastIs (path : UriPath) (word : String) : Prop :=
  ∃ s ∈ path.getLast?, s.text = word.toList

theorem pathEnds_iff {path : UriPath} {ending word : String}
    (h : ending.toList = '/' :: word.toList) (hword : '/' ∉ word.toList) :
    pathEnds path ending = true ↔ path.lastIs word := by
  rw [pathEnds, decide_eq_true_iff, h, slash_suffix_iff hword]
  rfl

theorem lastIs_of_pathIs {path : UriPath} {whole word : String} {front : List Char}
    (h : whole.toList = front ++ '/' :: word.toList) (hword : '/' ∉ word.toList)
    (hpath : pathIs path whole = true) : path.lastIs word := by
  rw [pathIs, beq_iff_eq, h] at hpath
  exact (slash_suffix_iff hword path).mp ⟨front, hpath.symm⟩

theorem isSparqlQueryShaped_iff (path : UriPath) :
    isSparqlQueryShaped path = true ↔ path.lastIs "sparql" ∨ path.lastIs "query" := by
  have hsparql : pathEnds path "/sparql" = true ↔ path.lastIs "sparql" :=
    pathEnds_iff rfl (by decide)
  have hquery : pathEnds path "/query" = true ↔ path.lastIs "query" := pathEnds_iff rfl (by decide)
  rw [isSparqlQueryShaped, Bool.or_eq_true, Bool.or_eq_true, hsparql, hquery]
  constructor
  · intro h
    rcases h with (h | h) | h
    · exact .inl (@lastIs_of_pathIs _ _ _ [] rfl (by decide) h)
    · exact .inl h
    · exact .inr h
  · intro h
    rcases h with h | h
    · exact .inl (.inr h)
    · exact .inr h

theorem UriPath.lastIs_unique {path : UriPath} {word word' : String} (h : path.lastIs word)
    (h' : path.lastIs word') : word = word' := by
  obtain ⟨s, hs, hword⟩ := h
  obtain ⟨s', hs', hword'⟩ := h'
  rw [Option.mem_def] at hs hs'
  rw [hs] at hs'
  cases hs'
  exact String.toList_injective (hword.symm.trans hword')

section Reading

variable {req : HttpRequest}

/-- The body of a query-shaped request is declared as an update, or is too large to be read. -/
def HttpRequest.declaresUpdate (req : HttpRequest) : Prop :=
  req.contentTypeContains "application/sparql-update" = true ∨
  req.contentTypeContains "application/x-www-form-urlencoded" = true ∧
    (req.body.size > sniffBodyLimit ∨ ∃ s, String.fromUTF8? req.body = some s ∧
      ∃ part ∈ s.toList.splitOn '&', ∃ value,
        HttpRequest.splitOnce part = some ("update".toList, value))

theorem any_updateField (parts : List (List Char)) :
    (parts.any fun part => (HttpRequest.splitOnce part).map Prod.fst == some "update".toList) =
      true ↔
    ∃ part ∈ parts, ∃ value, HttpRequest.splitOnce part = some ("update".toList, value) := by
  rw [List.any_eq_true]
  refine exists_congr fun part => and_congr_right fun _ => ?_
  rw [beq_iff_eq, Option.map_eq_some_iff]
  constructor
  · intro ⟨⟨key, value⟩, hsplit, hkey⟩
    cases hkey
    exact ⟨value, hsplit⟩
  · intro ⟨value, hsplit⟩
    exact ⟨_, hsplit, rfl⟩

theorem detectUpdateSmuggling_read_iff :
    detectUpdateSmuggling req = some .read ↔ ¬ req.declaresUpdate := by
  unfold detectUpdateSmuggling HttpRequest.declaresUpdate
  by_cases hupdate : req.contentTypeContains "application/sparql-update" = true
  · rw [if_pos hupdate]
    exact ⟨nofun, fun h => absurd (.inl hupdate) h⟩
  rw [if_neg hupdate]
  cases hform : req.contentTypeContains "application/x-www-form-urlencoded" with
  | false =>
    rw [if_pos (by rfl)]
    refine ⟨fun _ h => ?_, fun _ => rfl⟩
    rcases h with h | ⟨h, -⟩
    · exact hupdate h
    · cases h
  | true =>
    rw [if_neg (by simp)]
    by_cases hsize : req.body.size > sniffBodyLimit
    · rw [if_pos hsize]
      exact ⟨nofun, fun h => absurd (.inr ⟨rfl, .inl hsize⟩) h⟩
    rw [if_neg hsize]
    cases hs : String.fromUTF8? req.body with
    | none =>
      refine ⟨fun _ h => ?_, fun _ => rfl⟩
      rcases h with h | ⟨-, h | ⟨s, h, -⟩⟩
      · exact hupdate h
      · exact hsize h
      · cases h
    | some s =>
      have hany := any_updateField (s.toList.splitOn '&')
      dsimp only
      split_ifs with hfound
      · refine ⟨fun h => (by cases h), fun h => absurd ?_ h⟩
        exact .inr ⟨rfl, .inr ⟨s, rfl, hany.mp hfound⟩⟩
      · refine ⟨fun _ h => ?_, fun _ => rfl⟩
        rcases h with h | ⟨-, h | ⟨s', hs', h⟩⟩
        · exact hupdate h
        · exact hsize h
        · cases hs'
          exact hfound (hany.mpr h)

theorem declaresUpdate_of_updateText (h : (updateText req).isSome = true) :
    req.declaresUpdate := by
  unfold updateText at h
  split_ifs at h with hupdate hquery hform
  · exact .inl hupdate
  · cases h
  · refine .inr ⟨hform, .inr ?_⟩
    cases hs : String.fromUTF8? req.body with
    | none =>
      rw [hs] at h
      cases h
    | some s =>
      rw [hs, Option.bind_some] at h
      obtain ⟨update, hupdate⟩ := Option.isSome_iff_exists.mp h
      obtain ⟨part, hpart, hfield⟩ := List.exists_of_findSome?_eq_some hupdate
      obtain ⟨⟨key, value⟩, hsplit, hkey⟩ := Option.bind_eq_some_iff.mp hfield
      split_ifs at hkey with hupdateKey
      refine ⟨s, rfl, part, hpart, value, ?_⟩
      rw [hsplit, ← hupdateKey]
  · cases h

end Reading

section Routes

theorem lastIs_of_matchesParts {parts : List RoutePart} {path : UriPath} {word : String}
    (hmatch : matchesParts parts path = true) (hlast : parts.getLast? = some (.lit word)) :
    path.lastIs word := by
  fun_induction matchesParts parts path with
  | case1 => cases hlast
  | case2 => cases hlast
  | case3 text parts s segments ih =>
    rw [Bool.and_eq_true, beq_iff_eq] at hmatch
    cases parts with
    | nil =>
      cases hlast
      cases segments with
      | nil => exact ⟨s, rfl, hmatch.1⟩
      | cons _ _ => cases hmatch.2
    | cons part parts =>
      rw [List.getLast?_cons_cons] at hlast
      obtain ⟨s', hs', htext⟩ := ih hmatch.2 hlast
      cases segments with
      | nil => cases hs'
      | cons t segments => exact ⟨s', by rw [List.getLast?_cons_cons]; exact hs', htext⟩
  | case4 parts s segments ih =>
    rw [Bool.and_eq_true] at hmatch
    cases parts with
    | nil => cases hlast
    | cons part parts =>
      rw [List.getLast?_cons_cons] at hlast
      obtain ⟨s', hs', htext⟩ := ih hmatch.2 hlast
      cases segments with
      | nil => cases hs'
      | cons t segments => exact ⟨s', by rw [List.getLast?_cons_cons]; exact hs', htext⟩
  | case5 => cases hmatch

/-- The last segments of the fixed routes that change something by `POST`. -/
def writeWords : List String :=
  ["upload", "rdf-graph-store", "begin", "datasets", "compact", "commit", "rollback", "update",
    "rml", "ottr", "rules", "data"]

def queryWords : List String := ["sparql", "query"]

theorem changing_route {req : HttpRequest} {r : Route} {handler : Handler} (hr : r ∈ routes)
    (hhandler : r.handlers req.method = some handler) (hchanges : handler.changes req = true) :
    req.method = .put ∨ req.method = .delete ∨ req.method = .post ∧
      ((∃ word ∈ writeWords, r.parts.getLast? = some (.lit word)) ∨
        (∃ word ∈ queryWords, r.parts.getLast? = some (.lit word)) ∧
          (updateText req).isSome = true ∨
        r.parts = [.lit "rdf-graphs", .rest] ∨ r.parts = [.param, .lit "rules", .param]) := by
  have hall : ∀ r ∈ routes, ∀ method handler, r.handlers method = some handler →
      handler.changes req = true → method = .put ∨ method = .delete ∨ method = .post ∧
      ((∃ word ∈ writeWords, r.parts.getLast? = some (.lit word)) ∨
        (∃ word ∈ queryWords, r.parts.getLast? = some (.lit word)) ∧
          (updateText req).isSome = true ∨
        r.parts = [.lit "rdf-graphs", .rest] ∨ r.parts = [.param, .lit "rules", .param]) := by
    simp only [routes, List.forall_mem_cons]
    refine ⟨?_, ?_, ?_, ?_, ?_, ?_, ?_, ?_, ?_, ?_, ?_, ?_, ?_, ?_, ?_, ?_, ?_, ?_, ?_, ?_, ?_, ?_,
      ?_, ?_, ?_, ?_, ?_, ?_, ?_, ?_, ?_, ?_, ?_, ?_, ?_, ?_⟩
    all_goals
      intro method handler h hc
      cases method
    all_goals try cases h
    all_goals simp_all [Handler.changes, writeWords, queryWords]
  exact hall r hr req.method handler hhandler hchanges

end Routes

section Guarded

variable (env : TokenEnv) (req : HttpRequest)

/-- The token of the request is the key, which may have zeros behind it. -/
def HttpRequest.carriesKey (key : String) : Prop :=
  ∃ token, extractBearer req = some token ∧
    ∃ n, key.toUTF8.toList = asciiBytes token ++ List.replicate n 0

def HttpRequest.holdsWriteRole (config : OidcConfig) : Prop :=
  ∃ token claims, extractBearer req = some token ∧ env.validate config token = some claims ∧
    (claims.hasRole config.rolesClaim config.writeRole = true ∨
      claims.hasRole config.rolesClaim config.adminRole = true)

/-- A request that reaches a handler able to change something is no read, and no authentication
lets it through without the key or without the role. -/
def HttpRequest.Guarded : Prop :=
  ∀ handler, buildRouter req = some handler → handler.changes req = true →
    requiredPermission req ≠ some .read ∧
    (∀ key requireForReads, authMiddleware env (.apiKey key requireForReads) req = .next →
      req.carriesKey key) ∧
    ∀ config, authMiddleware env (.oidc config) req = .next → req.holdsWriteRole env config

def HttpRequest.looksLikeQuery : Prop :=
  (req.path.lastIs "sparql" ∨ req.path.lastIs "query") ∧ ¬ req.declaresUpdate

/-- A `POST` of a graph under `/rdf-graphs/` or of a ruleset whose last segment, which the client
chooses, is that of a query or, for a ruleset, of a validation. -/
def HttpRequest.passesAsRead : Prop :=
  req.method = .post ∧
    ((∃ s rest, req.path = s :: rest ∧ rest ≠ [] ∧ s.text = "rdf-graphs".toList ∧
        req.looksLikeQuery) ∨
      ∃ name rules id, req.path = [name, rules, id] ∧ rules.text = "rules".toList ∧
        name.text ≠ [] ∧ name.text ≠ "id".toList ∧ name.text ≠ "swagger-ui".toList ∧
        name.text ≠ "rdf-graphs".toList ∧ (req.looksLikeQuery ∨
          req.path.lastIs "shacl" ∧ name.text ≠ "transaction".toList))

variable {env req}

theorem classify_put_delete {method : Method} (h : method = .put ∨ method = .delete)
    (path : UriPath) : classify method path ≠ .read := by
  unfold classify
  split_ifs
  all_goals simp_all

theorem classify_post_read {path : UriPath} (h : classify .post path = .read) :
    (pathStarts path "/rdf-graphs/" = false ∧ pathStarts path "/transaction/" = false) ∧
      (isSparqlQueryShaped path = true ∨
      pathIs path "/rml/map" = true ∨ pathEnds path "/shacl" = true) := by
  unfold classify at h
  split_ifs at h
  all_goals simp_all

theorem required_post_read (hmethod : req.method = .post)
    (h : requiredPermission req = some .read) :
    req.looksLikeQuery ∨ ¬ isSparqlQueryShaped req.path = true ∧
      (pathStarts req.path "/rdf-graphs/" = false ∧
        pathStarts req.path "/transaction/" = false) ∧
      (pathIs req.path "/rml/map" = true ∨ req.path.lastIs "shacl") := by
  unfold requiredPermission at h
  split_ifs at h with hshaped
  · exact .inl ⟨(isSparqlQueryShaped_iff _).mp hshaped.2, detectUpdateSmuggling_read_iff.mp h⟩
  · rw [hmethod, Option.some.injEq] at h
    obtain ⟨hstart, hends⟩ := classify_post_read h
    have hno : ¬ isSparqlQueryShaped req.path = true := fun hs => hshaped ⟨hmethod, hs⟩
    refine .inr ⟨hno, hstart, ?_⟩
    rcases hends with hs | hmap | hshacl
    · exact absurd hs hno
    · exact .inl hmap
    · exact .inr ((pathEnds_iff rfl (by decide)).mp hshacl)

theorem required_of_looksLikeQuery (hmethod : req.method = .post) (h : req.looksLikeQuery) :
    requiredPermission req = some .read := by
  have hshaped := (isSparqlQueryShaped_iff req.path).mpr h.1
  rw [requiredPermission, if_pos ⟨hmethod, hshaped⟩]
  exact detectUpdateSmuggling_read_iff.mpr h.2

theorem pathStarts_iff {s : Segment} {rest : UriPath} {start word : String}
    (hstart : start.toList = '/' :: (word.toList ++ ['/'])) (hword : '/' ∉ word.toList)
    (hrest : rest ≠ []) : pathStarts (s :: rest) start = true ↔ s.text = word.toList := by
  obtain ⟨t, rest, rfl⟩ := List.exists_cons_of_ne_nil hrest
  rw [pathStarts, decide_eq_true_iff, hstart, text_cons, text_cons]
  have hfirst : ∀ (a w : List Char), '/' ∉ w → (w ++ '/' :: a).takeWhile (· ≠ '/') = w := by
    intro a w hw
    rw [List.takeWhile_append_of_pos]
    · simp
    · intro c hc
      have hne : c ≠ '/' := fun hc' => hw (hc' ▸ hc)
      simpa using hne
  constructor
  · intro ⟨tail, h⟩
    rw [List.cons_append, List.append_assoc, List.cons.injEq] at h
    have hleft := hfirst ([] ++ tail) _ hword
    rw [← List.cons_append, h.2, hfirst _ _ s.slashFree] at hleft
    exact hleft
  · intro h
    rw [h]
    exact ⟨t.text ++ UriPath.text rest, by simp⟩

theorem pathStarts_rdfGraphs {s : Segment} {rest : UriPath} (hpath : req.path = s :: rest)
    (hrest : rest ≠ []) (hs : s.text = "rdf-graphs".toList) :
    pathStarts req.path "/rdf-graphs/" = true := by
  rw [hpath]
  exact (@pathStarts_iff s rest _ "rdf-graphs" rfl (by decide) hrest).mpr hs

theorem matchesParts_lit (text : String) (parts : List RoutePart) (s : Segment)
    (segments : UriPath) : matchesParts (.lit text :: parts) (s :: segments) =
      (s.text == text.toList && matchesParts parts segments) := rfl

theorem buildRouter_rdfGraphs {s : Segment} {rest : UriPath} (hpath : req.path = s :: rest)
    (hrest : matchesParts [.rest] rest = true) (hs : s.text = "rdf-graphs".toList)
    (hmethod : req.method = .post) : buildRouter req = some .directGspPost := by
  have hfind : routes.find? (fun r => matchesParts r.parts req.path) =
      some ⟨[.lit "rdf-graphs", .rest], graphStoreMethods .directGspGet .directGspHead
        .directGspPut .directGspPost .directGspDelete⟩ := by
    simp [routes, matchesParts_lit, hpath, hs, hrest]
  rw [buildRouter, hfind, hmethod]
  rfl

theorem buildRouter_rules {name rules id : Segment} (hpath : req.path = [name, rules, id])
    (hrules : rules.text = "rules".toList) (hname : name.text ≠ []) (hid : id.text ≠ [])
    (hcommit : id.text ≠ "commit".toList) (hrollback : id.text ≠ "rollback".toList)
    (hgraphs : name.text ≠ "rdf-graphs".toList) (hmethod : req.method = .post) :
    buildRouter req = if name.text = "id".toList ∨ name.text = "swagger-ui".toList then none
      else some .datasetRulesIdPost := by
  by_cases hns : name.text = "id".toList
  · simp [buildRouter, routes, matchesParts, hpath, hrules, hns, hmethod, getOnly]
  by_cases hui : name.text = "swagger-ui".toList
  · simp [buildRouter, routes, matchesParts, hpath, hrules, hui, hmethod, getOnly]
  · simp_all [buildRouter, routes, matchesParts]

theorem lastIs_getLast {s : Segment} {front : UriPath} {word : String} :
    UriPath.lastIs (front ++ [s]) word ↔ s.text = word.toList := by
  rw [UriPath.lastIs, List.getLast?_concat]
  exact ⟨fun ⟨s', hs', h⟩ => by cases hs'; exact h, fun h => ⟨s, rfl, h⟩⟩

theorem matchesParts_rules {path : UriPath}
    (h : matchesParts [.param, .lit "rules", .param] path = true) :
    ∃ name rules id, path = [name, rules, id] ∧ name.text ≠ [] ∧ rules.text = "rules".toList ∧
      id.text ≠ [] := by
  match path with
  | [] => cases h
  | [a] => simp [matchesParts] at h
  | [a, b] => simp [matchesParts] at h
  | [a, b, c] => exact ⟨a, b, c, rfl, by simpa [matchesParts] using h⟩
  | a :: b :: c :: d :: path => simp [matchesParts] at h

theorem authConfig_unchanged {handler : Handler} (hroute : buildRouter req = some handler)
    (hchanges : handler.changes req = true) : pathIs req.path "/auth/config" = false := by
  rw [← Bool.not_eq_true]
  intro hpath
  have hlast : req.path.lastIs "config" :=
    @lastIs_of_pathIs _ _ _ "/auth".toList rfl (by decide) hpath
  rw [pathIs, beq_iff_eq] at hpath
  have hlength : req.path.length = 2 := by
    rw [← count_slash, hpath]
    decide
  obtain ⟨a, c, hpair⟩ := List.length_eq_two.mp hlength
  have hconfig : c.text = "config".toList := by
    rw [hpair] at hlast
    exact (@lastIs_getLast c [a] _).mp hlast
  have hauth : a.text = "auth".toList := by
    refine (@pathStarts_iff a [c] "/auth/" "auth" rfl (by decide) (List.cons_ne_nil _ _)).mp ?_
    rw [pathStarts, decide_eq_true_iff, ← hpair, hpath]
    exact ⟨"config".toList, rfl⟩
  have hrun : buildRouter req = getOnly .authConfigHandler req.method := by
    simp [buildRouter, routes, matchesParts, hpair, hauth, hconfig]
  rw [hrun] at hroute
  unfold getOnly at hroute
  split at hroute
  · cases hroute
    cases hchanges
  · cases hroute
    cases hchanges
  · cases hroute

theorem asciiBytes_ne_zero {token : List Char} (h : extractBearer req = some token) :
    ∀ b ∈ asciiBytes token, b ≠ 0 := by
  intro b hb
  obtain ⟨value, -, hvalue⟩ := Option.bind_eq_some_iff.mp h
  split_ifs at hvalue
  cases hvalue
  obtain ⟨c, hc, rfl⟩ := List.mem_map.mp hb
  intro hzero
  have hnat : c.toNat % 256 = 0 := congrArg UInt8.toNat hzero
  rcases value.visible c (List.mem_of_mem_drop hc) with rfl | ⟨hlow, hhigh⟩
  · exact absurd hnat (by decide)
  · omega

theorem zeros_of_constantTimeEq {a b : List UInt8} (ha : ∀ x ∈ a, x ≠ 0)
    (h : constantTimeEq a b = true) : ∃ n, b = a ++ List.replicate n 0 := by
  rw [constantTimeEq, beq_iff_eq] at h
  rcases le_or_gt a.length b.length with hle | hlt
  · refine ⟨b.length - a.length, ?_⟩
    rw [max_eq_right hle, Nat.sub_self, List.replicate_zero, List.append_nil] at h
    exact h.symm
  · -- the padding of the key would end the token
    rw [max_eq_left hlt.le, Nat.sub_self, List.replicate_zero, List.append_nil] at h
    have hzero : (0 : UInt8) ∈ a := by
      rw [h, List.mem_append, List.mem_replicate]
      exact .inr ⟨by omega, rfl⟩
    exact absurd rfl (ha 0 hzero)

theorem passesAsRead_of_read {handler : Handler} (hroute : buildRouter req = some handler)
    (hchanges : handler.changes req = true) (hread : requiredPermission req = some .read) :
    req.passesAsRead := by
  obtain ⟨r, hfind, hhandler⟩ := Option.bind_eq_some_iff.mp hroute
  have hmatch := List.find?_some (p := fun r : Route => matchesParts r.parts req.path) hfind
  rcases changing_route (List.mem_of_find?_eq_some hfind) hhandler hchanges with
    hput | hdelete | ⟨hpost, hform⟩
  · have hshape : requiredPermission req = some (classify req.method req.path) := by
      rw [requiredPermission, if_neg (by rw [hput]; simp)]
    rw [hshape, Option.some.injEq] at hread
    exact absurd hread (classify_put_delete (.inl hput) _)
  · have hshape : requiredPermission req = some (classify req.method req.path) := by
      rw [requiredPermission, if_neg (by rw [hdelete]; simp)]
    rw [hshape, Option.some.injEq] at hread
    exact absurd hread (classify_put_delete (.inr hdelete) _)
  have hlast := required_post_read hpost hread
  -- a path with a fixed last segment
  have hfixed : ∀ word, req.path.lastIs word → word ∈ writeWords → False := by
    intro word hword hmem
    have hwords : ∀ w ∈ writeWords, w ≠ "sparql" ∧ w ≠ "query" ∧ w ≠ "map" ∧ w ≠ "shacl" := by
      decide
    obtain ⟨hsparql, hquery, hmap, hshacl⟩ := hwords word hmem
    rcases hlast with ⟨h | h, -⟩ | ⟨-, -, h | h⟩
    · exact hsparql (lastIs_unique hword h)
    · exact hquery (lastIs_unique hword h)
    · exact hmap (lastIs_unique hword
        (@lastIs_of_pathIs _ _ "map" "/rml".toList rfl (by decide) h))
    · exact hshacl (lastIs_unique hword h)
  refine ⟨hpost, ?_⟩
  rcases hform with ⟨word, hmem, hword⟩ | ⟨⟨word, hmem, hword⟩, hupdate⟩ | hparts | hparts
  · exact (hfixed word (lastIs_of_matchesParts hmatch hword) hmem).elim
  · have hpath := lastIs_of_matchesParts hmatch hword
    have hshaped : isSparqlQueryShaped req.path = true := by
      rw [isSparqlQueryShaped_iff]
      simp only [queryWords, List.mem_cons, List.not_mem_nil, or_false] at hmem
      rcases hmem with rfl | rfl
      · exact .inl hpath
      · exact .inr hpath
    rcases hlast with h | h
    · exact absurd (declaresUpdate_of_updateText hupdate) h.2
    · exact absurd hshaped h.1
  · -- under `/rdf-graphs/`
    rw [hparts] at hmatch
    cases hpath : req.path with
    | nil =>
      rw [hpath] at hmatch
      cases hmatch
    | cons s rest =>
      rw [hpath, matchesParts_lit, Bool.and_eq_true, beq_iff_eq] at hmatch
      have hrest : rest ≠ [] := by
        intro h
        rw [h] at hmatch
        cases hmatch.2
      have hstart := pathStarts_rdfGraphs hpath hrest hmatch.1
      rcases hlast with h | ⟨-, h, -⟩
      · exact .inl ⟨s, rest, rfl, hrest, hmatch.1, h⟩
      · rw [hstart] at h
        cases h.1
  · -- a ruleset of a dataset
    rw [hparts] at hmatch
    obtain ⟨name, rules, id, hpath, hname, hrules, hid⟩ := matchesParts_rules hmatch
    have hlastId : ∀ word, req.path.lastIs word → id.text = word.toList := by
      intro word hword
      rw [hpath] at hword
      exact (@lastIs_getLast id [name, rules] word).mp hword
    -- the path is too long for `/rml/map`
    have hmap : pathIs req.path "/rml/map" = false := by
      rw [← Bool.not_eq_true, pathIs, beq_iff_eq, hpath]
      intro h
      have hcount := count_slash [name, rules, id]
      have htwo : "/rml/map".toList.count '/' = 2 := by decide
      rw [h, htwo] at hcount
      cases hcount
    have hend : req.looksLikeQuery ∨ req.path.lastIs "shacl" ∧
        pathStarts req.path "/rdf-graphs/" = false ∧
        pathStarts req.path "/transaction/" = false := by
      rcases hlast with h | ⟨-, hstart, h | h⟩
      · exact .inl h
      · rw [hmap] at h
        cases h
      · exact .inr ⟨h, hstart⟩
    have hword : id.text = "sparql".toList ∨ id.text = "query".toList ∨
        id.text = "shacl".toList := by
      rcases hend with ⟨h | h, -⟩ | ⟨h, -⟩
      · exact .inl (hlastId _ h)
      · exact .inr (.inl (hlastId _ h))
      · exact .inr (.inr (hlastId _ h))
    have hcommit : id.text ≠ "commit".toList ∧ id.text ≠ "rollback".toList := by
      rcases hword with h | h | h
      all_goals
        rw [h]
        decide
    by_cases hgraphs : name.text = "rdf-graphs".toList
    · refine .inl ⟨name, [rules, id], hpath, List.cons_ne_nil _ _, hgraphs, ?_⟩
      rcases hend with h | ⟨-, h, -⟩
      · exact h
      · have hstart := pathStarts_rdfGraphs hpath (List.cons_ne_nil _ _) hgraphs
        rw [hstart] at h
        cases h
    · have hrun := buildRouter_rules hpath hrules hname hid hcommit.1 hcommit.2 hgraphs hpost
      rw [hroute] at hrun
      split_ifs at hrun with htaken
      obtain ⟨hidName, hui⟩ := not_or.mp htaken
      refine .inr ⟨name, rules, id, hpath, hrules, hname, hidName, hui, hgraphs, ?_⟩
      rcases hend with h | ⟨h, -, htransaction⟩
      · exact .inl h
      · refine .inr ⟨h, fun hname => ?_⟩
        rw [hpath, ← Bool.not_eq_true] at htransaction
        exact htransaction ((@pathStarts_iff name [rules, id] _ "transaction" rfl (by decide)
          (List.cons_ne_nil _ _)).mpr hname)

theorem lastIs_iff_not {word word' : String} (h : req.path.lastIs word) (hne : word' ≠ word) :
    ¬ req.path.lastIs word' :=
  fun h' => hne (lastIs_unique h' h)

theorem required_of_shacl {name rules id : Segment} (hpath : req.path = [name, rules, id])
    (hmethod : req.method = .post) (hlast : req.path.lastIs "shacl")
    (hgraphs : name.text ≠ "rdf-graphs".toList) (htransaction : name.text ≠ "transaction".toList) :
    requiredPermission req = some .read := by
  have hends : ∀ {ending word : String}, ending.toList = '/' :: word.toList →
      '/' ∉ word.toList → word ≠ "shacl" → pathEnds req.path ending = false := by
    intro ending word h hword hne
    rw [← Bool.not_eq_true, pathEnds_iff h hword]
    exact lastIs_iff_not hlast hne
  have his : ∀ {whole word : String} {front : List Char}, whole.toList =
      front ++ '/' :: word.toList →
      '/' ∉ word.toList → word ≠ "shacl" → pathIs req.path whole = false := by
    intro whole word front h hword hne
    rw [← Bool.not_eq_true]
    exact fun hw => lastIs_iff_not hlast hne (lastIs_of_pathIs h hword hw)
  have hstarts : ∀ {start word : String}, start.toList = '/' :: (word.toList ++ ['/']) →
      '/' ∉ word.toList → name.text ≠ word.toList → pathStarts req.path start = false := by
    intro start word h hword hne
    rw [← Bool.not_eq_true, hpath, pathStarts_iff h hword (List.cons_ne_nil _ _)]
    exact hne
  have hshaped : isSparqlQueryShaped req.path = false := by
    rw [← Bool.not_eq_true, isSparqlQueryShaped_iff, not_or]
    exact ⟨lastIs_iff_not hlast (by decide), lastIs_iff_not hlast (by decide)⟩
  have hshacl : pathEnds req.path "/shacl" = true := (pathEnds_iff rfl (by decide)).mpr hlast
  rw [requiredPermission, hshaped, hmethod, if_neg (by simp)]
  unfold classify
  rw [@his "/$/datasets" "datasets" "/$".toList rfl (by decide) (by decide),
    @his "/$/compact" "compact" "/$".toList rfl (by decide) (by decide),
    @his "/upload" "upload" [] rfl (by decide) (by decide),
    @hends "/update" "update" rfl (by decide) (by decide),
    @hends "/rml" "rml" rfl (by decide) (by decide),
    @hends "/ottr" "ottr" rfl (by decide) (by decide),
    @hstarts "/transaction/" "transaction" rfl (by decide) htransaction,
    @his "/rdf-graph-store" "rdf-graph-store" [] rfl (by decide) (by decide),
    @hstarts "/rdf-graphs/" "rdf-graphs" rfl (by decide) hgraphs,
    @hends "/data" "data" rfl (by decide) (by decide), hshaped, hshacl]
  simp

theorem read_of_passesAsRead (h : req.passesAsRead) :
    ∃ handler, buildRouter req = some handler ∧ handler.changes req = true ∧
      requiredPermission req = some .read := by
  obtain ⟨hpost, ⟨s, rest, hpath, hrest, hs, hquery⟩ |
    ⟨name, rules, id, hpath, hrules, hname, hidName, hui, hgraphs, hform⟩⟩ := h
  · refine ⟨.directGspPost, ?_, rfl, required_of_looksLikeQuery hpost hquery⟩
    refine buildRouter_rdfGraphs hpath ?_ hs hpost
    obtain ⟨front, last, rfl⟩ : ∃ front last, rest = front ++ [last] :=
      ⟨_, _, (List.dropLast_append_getLast hrest).symm⟩
    have hlast : last.text ≠ [] := by
      rw [HttpRequest.looksLikeQuery, hpath] at hquery
      rcases hquery.1 with h | h
      all_goals
        rw [(@lastIs_getLast last (s :: front) _).mp h]
        decide
    change (decide _ || List.any _ _) = true
    rw [Bool.or_eq_true, List.any_eq_true]
    exact .inr ⟨last, List.mem_append_right front (.head _), decide_eq_true hlast⟩
  · have hword : id.text = "sparql".toList ∨ id.text = "query".toList ∨
        id.text = "shacl".toList := by
      rw [HttpRequest.looksLikeQuery, hpath] at hform
      rcases hform with ⟨h | h, -⟩ | ⟨h, -⟩
      · exact .inl ((@lastIs_getLast id [name, rules] _).mp h)
      · exact .inr (.inl ((@lastIs_getLast id [name, rules] _).mp h))
      · exact .inr (.inr ((@lastIs_getLast id [name, rules] _).mp h))
    have hid : id.text ≠ [] ∧ id.text ≠ "commit".toList ∧ id.text ≠ "rollback".toList := by
      rcases hword with h | h | h
      all_goals
        rw [h]
        decide
    have hrun := buildRouter_rules hpath hrules hname hid.1 hid.2.1 hid.2.2 hgraphs hpost
    rw [if_neg (not_or.mpr ⟨hidName, hui⟩)] at hrun
    refine ⟨_, hrun, rfl, ?_⟩
    rcases hform with h | ⟨h, htransaction⟩
    · exact required_of_looksLikeQuery hpost h
    · exact required_of_shacl hpath hpost h hgraphs htransaction

theorem carriesKey_of_next {key : String} {requireForReads : Bool}
    (hread : requiredPermission req ≠ some .read) (hpath : pathIs req.path "/auth/config" = false)
    (h : authMiddleware env (.apiKey key requireForReads) req = .next) : req.carriesKey key := by
  rw [authMiddleware, hpath, if_neg (by simp)] at h
  cases hrequired : requiredPermission req with
  | none =>
    rw [hrequired] at h
    cases h
  | some required =>
    have hwrites : required ≠ .read := fun hr => hread (hr ▸ hrequired)
    cases htoken : extractBearer req with
    | none =>
      rw [hrequired, htoken] at h
      cases required with
      | read => exact absurd rfl hwrites
      | write => cases h
      | admin => cases h
    | some token =>
      refine ⟨token, htoken, zeros_of_constantTimeEq (asciiBytes_ne_zero htoken) ?_⟩
      rw [hrequired, htoken] at h
      by_contra hne
      cases required with
      | read => exact absurd rfl hwrites
      | write | admin =>
        simp at h
        exact hne h

theorem holdsWriteRole_of_next {config : OidcConfig}
    (hread : requiredPermission req ≠ some .read) (hpath : pathIs req.path "/auth/config" = false)
    (h : authMiddleware env (.oidc config) req = .next) : req.holdsWriteRole env config := by
  rw [authMiddleware, hpath, if_neg (by simp)] at h
  cases hrequired : requiredPermission req with
  | none =>
    rw [hrequired] at h
    cases h
  | some required =>
    cases htoken : extractBearer req with
    | none =>
      rw [hrequired, htoken] at h
      cases h
    | some token =>
      cases hclaims : env.validate config token with
      | none =>
        simp only [hrequired, htoken, hclaims] at h
        cases h
      | some claims =>
        simp only [hrequired, htoken, hclaims] at h
        split_ifs at h with hauthorized
        refine ⟨token, claims, htoken, hclaims, ?_⟩
        cases required with
        | read => exact absurd hrequired hread
        | write => exact (Bool.or_eq_true _ _).mp hauthorized
        | admin => exact .inr hauthorized

/-- A request is guarded just when it does not pass as a read. -/
theorem guarded_iff (env : TokenEnv) (req : HttpRequest) :
    req.Guarded env ↔ ¬ req.passesAsRead := by
  constructor
  · intro h hpasses
    obtain ⟨handler, hroute, hchanges, hread⟩ := read_of_passesAsRead hpasses
    exact (h handler hroute hchanges).1 hread
  · intro h handler hroute hchanges
    have hread : requiredPermission req ≠ some .read :=
      fun hread => h (passesAsRead_of_read hroute hchanges hread)
    have hconfig : pathIs req.path "/auth/config" = false := authConfig_unchanged hroute hchanges
    exact ⟨hread, fun _ _ => carriesKey_of_next hread hconfig,
      fun _ => holdsWriteRole_of_next hread hconfig⟩

/-- A `POST` of Turtle to `/rdf-graphs/query`, without a token. -/
def graphNamedQuery : HttpRequest where
  method := .post
  path := [⟨"rdf-graphs".toList, by decide⟩, ⟨"query".toList, by decide⟩]
  authorization := none
  contentType := some ⟨"text/turtle".toList, by simp⟩
  body := "<a:s> <a:p> <a:o> .".toUTF8

/-- It writes a graph, and no key is asked for. -/
theorem graphNamedQuery_not_guarded : ¬ graphNamedQuery.Guarded ⟨fun _ _ => none⟩ := by
  intro h
  have hroute : buildRouter graphNamedQuery = some .directGspPost := by decide
  have hread : requiredPermission graphNamedQuery = some .read := by decide
  exact (h .directGspPost hroute rfl).1 hread

end Guarded

end RdfDatalog.Endpoint
