import FormulaSheet.Character.Case

/-!
# Variants in case

The characters that differ from a character in case alone.  Most are its
capital and its small form; where more than two belong together, or the forms
do not lead back, they are listed as a family.
-/

namespace FormulaSheet.Character

/-- Families of characters that differ in case alone. -/
def caseFamilies : List (List Nat) := [
  [75, 107, 8490], [83, 115, 383], [181, 924, 956], [197, 229, 8491], [223, 7838], [305],
  [452, 453, 454], [455, 456, 457], [458, 459, 460], [497, 498, 499], [837, 921, 953, 8126],
  [914, 946, 976], [917, 949, 1013], [920, 952, 977, 1012], [922, 954, 1008], [928, 960, 982],
  [929, 961, 1009], [931, 962, 963], [934, 966, 981], [937, 969, 8486], [1042, 1074, 7296],
  [1044, 1076, 7297], [1054, 1086, 7298], [1057, 1089, 7299], [1058, 1090, 7300, 7301],
  [1066, 1098, 7302], [1122, 1123, 7303], [7304, 42570, 42571], [7776, 7777, 7835], [8064, 8072],
  [8065, 8073], [8066, 8074], [8067, 8075], [8068, 8076], [8069, 8077], [8070, 8078],
  [8071, 8079], [8080, 8088], [8081, 8089], [8082, 8090], [8083, 8091], [8084, 8092],
  [8085, 8093], [8086, 8094], [8087, 8095], [8096, 8104], [8097, 8105], [8098, 8106],
  [8099, 8107], [8100, 8108], [8101, 8109], [8102, 8110], [8103, 8111], [8115, 8124],
  [8131, 8140], [8179, 8188]]

/-- The character of a mapping that keeps to one character. -/
def single? : List Char → Option Char
  | [c] => some c
  | _ => none

/-- The characters that differ from `c` in case alone, `c` among them. -/
def variants (c : Char) : List Char :=
  match caseFamilies.find? (·.contains c.toNat) with
  | some family => family.map Char.ofNat
  | none => c :: ((single? (upper c)).toList ++ (single? (lower c)).toList)

end FormulaSheet.Character
