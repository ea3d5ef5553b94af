namespace ProductLock.Yaml

/-- A document before its plain scalars are given types. Quoted scalars are kept as code points,
since their escapes can name unpaired surrogates. -/
inductive Node where
  | plain (s : String)
  | quoted (ps : List Nat)
  | list (items : List Node)
  | map (entries : List (Node × Node))

/-- What stands where nothing is written. -/
def Node.empty : Node :=
  .plain ""

end ProductLock.Yaml
