import EmbeddedLang.Expr.Basic
import EmbeddedLang.Text.Quoted

/-!
What dialects write in ways of their own.
-/

namespace EmbeddedLang.Query

/-- Functions go by their names in upper case. -/
inductive Construct where
  | binary (op : BinaryOp)
  | unary (op : UnaryOp)
  | join (kind : JoinKind)
  | limit
  | limitOffset
  | updateLimit
  | deleteLimit
  | function (name : String)
deriving DecidableEq

def joinWords : JoinKind → String
  | .inner => "INNER JOIN"
  | .left => "LEFT JOIN"
  | .right => "RIGHT JOIN"
  | .full => "FULL JOIN"
  | .cross => "CROSS JOIN"

def binaryKey : BinaryOp → String
  | .or => "Or"
  | .and => "And"
  | .eq => "Eq"
  | .notEq => "NotEq"
  | .identical => "Identical"
  | .notIdentical => "NotIdentical"
  | .lt => "Lt"
  | .gt => "Gt"
  | .ltEq => "LtEq"
  | .gtEq => "GtEq"
  | .like => "Like"
  | .notLike => "NotLike"
  | .iLike => "ILike"
  | .notILike => "NotILike"
  | .in => "In"
  | .notIn => "NotIn"
  | .add => "Add"
  | .sub => "Sub"
  | .mul => "Mul"
  | .div => "Div"
  | .floorDiv => "FloorDiv"
  | .mod => "Mod"
  | .pow => "Pow"
  | .concat => "Concat"
  | .range => "Range"
  | .bitAnd => "BitAnd"
  | .bitOr => "BitOr"
  | .bitXor => "BitXor"

def unaryKey : UnaryOp → String
  | .not => "Not"
  | .neg => "Neg"
  | .plus => "Plus"
  | .bitNot => "BitNot"

def joinKey : JoinKind → String
  | .inner => "Inner"
  | .left => "Left"
  | .right => "Right"
  | .full => "Full"
  | .cross => "Cross"

namespace Construct

/-- How an error names a construct. -/
def describe : Construct → String
  | binary op => op.name
  | unary op => "unary " ++ op.name
  | join kind => joinWords kind
  | limit => "LIMIT"
  | limitOffset => "LIMIT with OFFSET"
  | updateLimit => "UPDATE with LIMIT"
  | deleteLimit => "DELETE with LIMIT"
  | function name => name ++ "()"

/-- How the signature of a dialect names a construct. No two constructs have one key. -/
def key : Construct → String
  | binary op => "Binary(" ++ binaryKey op ++ ")"
  | unary op => "Unary(" ++ unaryKey op ++ ")"
  | join kind => "Join(" ++ joinKey kind ++ ")"
  | limit => "Limit"
  | limitOffset => "LimitOffset"
  | updateLimit => "UpdateLimit"
  | deleteLimit => "DeleteLimit"
  | function name => "Function(" ++ Text.quoted name ++ ")"

end Construct

end EmbeddedLang.Query
