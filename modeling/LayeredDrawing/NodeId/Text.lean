import LayeredDrawing.NodeId.Basic
import LayeredDrawing.Text.Quoted

/-!
# Identifiers in messages

Inside a message an identifier is written so that its kind can be seen (`NodeId.quoted`): texts are
quoted, tuples stand in parentheses with a comma after a lone member.  Where a message names the
ends of an edge without quotes, a text stands for itself (`NodeId.plain`).
-/

namespace LayeredDrawing.NodeId

mutual

def quoted : NodeId → String
  | null => "None"
  | int n => toString n
  | text s => Text.quoted s
  | tuple l => "(" ++ quotedAll l ++ (if l.length = 1 then ",)" else ")")
  | dummy k i => "__dummy_" ++ toString k ++ "_" ++ toString i

def quotedAll : List NodeId → String
  | [] => ""
  | [a] => quoted a
  | a :: l => quoted a ++ ", " ++ quotedAll l

end

def plain : NodeId → String
  | text s => s
  | id => id.quoted

end LayeredDrawing.NodeId
