import PeerLink.Connection.Request
import PeerLink.Proofs.Text.Percent
import PeerLink.Proofs.Text.Pieces
/-!
# Addresses of requests

The query of an address is split at `&` and `=`, and its path at `/`. Keys, values and names of
items are percent-encoded, so they contain no separator, and reading an address gives back the pairs
and the name that it was built from.

## Main definitions

* `Query.read?`: the pairs of a query.

## Main statements

* `Query.read?_join`: reading a query gives back its pairs.
* `Session.url_injective`: `Session.url` is injective in the pairs.
* `Request.pieces_path_postUpdate`, `Request.pieces_path_sendCommand`: the segment of the name.
* `address_of_request`: all of these.
-/

namespace PeerLink.Connection

open Text Percent

/-! ## Queries -/

namespace Query

/-- The key and the value of a part of a query, before and after the first `=`. -/
def readPair? (part : String) : Option (String × String) :=
  match part.toList.dropWhile (· != '=') with
  | [] => none
  | _ :: value => do
    return (← decode? (String.ofList (part.toList.takeWhile (· != '='))),
      ← decode? (String.ofList value))

/-- The pairs of a query, whose parts are separated by `&`. -/
def read? (query : String) : Option (List (String × String)) :=
  (pieces '&' query).mapM readPair?

theorem readPair?_pair (kv : String × String) : readPair? (Session.pair kv) = some kv := by
  have hkey : ∀ c ∈ (encode kv.1).toList, (c != '=') = true := fun c hc =>
    bne_iff_ne.2 fun he => not_mem_encode (by decide) kv.1 (he ▸ hc)
  have hpair : (Session.pair kv).toList =
      (encode kv.1).toList ++ '=' :: (encode kv.2).toList := by
    simp [Session.pair]
  rw [readPair?, hpair, List.dropWhile_append_of_pos hkey, List.takeWhile_append_of_pos hkey,
    List.dropWhile_cons_of_neg (by decide), List.takeWhile_cons_of_neg (by decide)]
  simp [decode?_encode]

theorem amp_not_mem_pair (kv : String × String) : '&' ∉ (Session.pair kv).toList := by
  simp [Session.pair, not_mem_encode (show '&' ∈ separators by decide)]

/-- Reading a query gives back its pairs. -/
theorem read?_join {pairs : List (String × String)} (h : pairs ≠ []) :
    read? (join "&" (pairs.map Session.pair)) = some pairs := by
  obtain ⟨kv, pairs, rfl⟩ := List.exists_cons_of_ne_nil h
  have hall (kvs : List (String × String)) : (kvs.map Session.pair).mapM readPair? = some kvs := by
    induction kvs with
    | nil => rfl
    | cons kv kvs ih => simp [readPair?_pair, ih]
  have hpieces : pieces '&' (join "&" ((kv :: pairs).map Session.pair)) =
      (kv :: pairs).map Session.pair := by
    refine pieces_join fun part hpart => ?_
    rw [← List.map_cons] at hpart
    obtain ⟨kv, -, rfl⟩ := List.mem_map.1 hpart
    exact amp_not_mem_pair kv
  rw [read?, hpieces, hall]

end Query

/-! ## Addresses -/

namespace Session

theorem url_nil (s : Session) (path : String) : s.url path [] = s.baseUrl ++ path := by
  simp [url]

/-- The query is appended to the path after `?`, or after `&` if the path has a query already. -/
theorem url_of_ne_nil (s : Session) (path : String) {pairs : List (String × String)}
    (h : pairs ≠ []) : s.url path pairs = s.baseUrl ++ path ++
      (if '?' ∈ path.toList then "&" else "?") ++ join "&" (pairs.map pair) := by
  simp [url, h, String.append_assoc]

/-- `Session.url` is injective in the pairs. -/
theorem url_injective (s : Session) (path : String) : Function.Injective (s.url path) := by
  have hne {pairs : List (String × String)} (h : pairs ≠ []) :
      s.url path [] ≠ s.url path pairs := by
    rw [url_nil, url_of_ne_nil s path h, String.append_assoc, ne_comm, ne_eq,
      String.append_eq_left_iff, String.append_eq_empty_iff]
    split <;> simp
  intro pairs pairs' heq
  rcases eq_or_ne pairs [] with rfl | h <;> rcases eq_or_ne pairs' [] with rfl | h'
  · rfl
  · exact absurd heq (hne h')
  · exact absurd heq.symm (hne h)
  · rw [url_of_ne_nil s path h, url_of_ne_nil s path h', String.append_right_inj] at heq
    exact Option.some.inj (by rw [← Query.read?_join h, heq, Query.read?_join h'])

end Session

/-! ## Items -/

namespace Request

/-- The name of an item is the last segment but one. -/
theorem pieces_path_postUpdate (item text : String) :
    pieces '/' (postUpdate item text).path = ["", "rest", "items", encode item, "state"] := by
  have hpath : (postUpdate item text).path =
      join (String.singleton '/') ["", "rest", "items", encode item, "state"] := by
    simp [postUpdate, join, ← String.toList_inj]
  rw [hpath, pieces_join]
  simp [not_mem_encode (show '/' ∈ separators by decide)]

/-- The name of an item is the last segment. -/
theorem pieces_path_sendCommand (item text : String) :
    pieces '/' (sendCommand item text).path = ["", "rest", "items", encode item] := by
  have hpath : (sendCommand item text).path =
      join (String.singleton '/') ["", "rest", "items", encode item] := by
    simp [sendCommand, join, ← String.toList_inj]
  rw [hpath, pieces_join]
  simp [not_mem_encode (show '/' ∈ separators by decide)]

variable {item item' text text' : String}

/-- The paths of an update and of a command differ in the number of their segments. -/
theorem path_postUpdate_ne (item item' text text' : String) :
    (postUpdate item text).path ≠ (sendCommand item' text').path := by
  intro heq
  have hpieces := congrArg (pieces '/') heq
  rw [pieces_path_postUpdate, pieces_path_sendCommand] at hpieces
  simp at hpieces

theorem eq_of_path_postUpdate (h : (postUpdate item text).path = (postUpdate item' text').path) :
    item = item' := by
  have hpieces := congrArg (pieces '/') h
  rw [pieces_path_postUpdate, pieces_path_postUpdate] at hpieces
  exact encode_injective (by simpa using hpieces)

theorem eq_of_path_sendCommand
    (h : (sendCommand item text).path = (sendCommand item' text').path) : item = item' := by
  have hpieces := congrArg (pieces '/') h
  rw [pieces_path_sendCommand, pieces_path_sendCommand] at hpieces
  exact encode_injective (by simpa using hpieces)

end Request

/-- For every session, path, pairs and items: the query is appended to the path after `?`, or after
`&` if the path has a `?`, and reading it gives back the pairs. The address is injective in the
pairs. The name of an item is one segment of its path, without separators, and decoding it gives
back the name. The two paths of an item differ from each other and from those of every other
item. -/
theorem address_of_request :
    (∀ pairs, pairs ≠ [] → ∃ query, Query.read? query = some pairs ∧
      ∀ (s : Session) (path : String),
        ('?' ∉ path.toList → s.url path pairs = s.baseUrl ++ path ++ "?" ++ query) ∧
        ('?' ∈ path.toList → s.url path pairs = s.baseUrl ++ path ++ "&" ++ query)) ∧
    (∀ (s : Session) (path : String), Function.Injective (s.url path)) ∧
    (∀ item : String, ∃ segment, decode? segment = some item ∧
      (∀ c ∈ ['/', '?', '#', '&'], c ∉ segment.toList) ∧
      ∀ text, pieces '/' (Request.postUpdate item text).path =
          ["", "rest", "items", segment, "state"] ∧
        pieces '/' (Request.sendCommand item text).path = ["", "rest", "items", segment]) ∧
    ∀ item item' text text' : String,
      (Request.postUpdate item text).path ≠ (Request.sendCommand item' text').path ∧
      (item ≠ item' →
        (Request.postUpdate item text).path ≠ (Request.postUpdate item' text').path ∧
        (Request.sendCommand item text).path ≠ (Request.sendCommand item' text').path) := by
  refine ⟨fun pairs h => ⟨_, Query.read?_join h, fun s path => ?_⟩, Session.url_injective,
    fun item => ⟨encode item, decode?_encode item, fun c hc => ?_, fun text => ?_⟩,
    fun item item' text text' => ⟨Request.path_postUpdate_ne item item' text text', fun hne => ?_⟩⟩
  · rw [s.url_of_ne_nil path h]
    exact ⟨fun hpath => by rw [if_neg hpath], fun hpath => by rw [if_pos hpath]⟩
  · exact not_mem_encode (List.mem_append_left ['='] hc) item
  · exact ⟨Request.pieces_path_postUpdate item text, Request.pieces_path_sendCommand item text⟩
  · exact ⟨mt Request.eq_of_path_postUpdate hne, mt Request.eq_of_path_sendCommand hne⟩

/-- A key and a value that contain separators, and items whose names look like paths. -/
theorem address_of_request_demo :
    (∃ query, Query.read? query = some [("a&b", "1=%"), ("", "ö?")] ∧
      (Session.mk "http://demo").url "/rest/items" [("a&b", "1=%"), ("", "ö?")] =
        "http://demo" ++ "/rest/items" ++ "?" ++ query) ∧
    (Request.postUpdate "A" "ON").path ≠ (Request.sendCommand "A/state" "ON").path ∧
    (Request.sendCommand "A/state" "ON").path ≠ (Request.sendCommand "A%2Fstate" "ON").path := by
  obtain ⟨hread, -, -, hpaths⟩ := address_of_request
  obtain ⟨query, hquery, hurl⟩ := hread [("a&b", "1=%"), ("", "ö?")] (List.cons_ne_nil _ _)
  have hpath : '?' ∉ "/rest/items".toList := by decide
  exact ⟨⟨query, hquery, (hurl ⟨"http://demo"⟩ "/rest/items").1 hpath⟩,
    (hpaths "A" "A/state" "ON" "ON").1,
    ((hpaths "A/state" "A%2Fstate" "ON" "ON").2 (by decide)).2⟩

end PeerLink.Connection
