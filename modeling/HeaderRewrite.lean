import HeaderRewrite.Construction.Rejection
import HeaderRewrite.Execution.Characters
import HeaderRewrite.Execution.Check
import HeaderRewrite.Execution.Concatenation
import HeaderRewrite.Execution.Exchange
import HeaderRewrite.Execution.Expressiveness
import HeaderRewrite.Execution.Failure
import HeaderRewrite.Execution.Headers
import HeaderRewrite.Execution.Matcher
import HeaderRewrite.Execution.Names
import HeaderRewrite.Execution.Path
import HeaderRewrite.Execution.Positionless
import HeaderRewrite.Execution.Renaming
import HeaderRewrite.Execution.Safety
import HeaderRewrite.Execution.Sides
import HeaderRewrite.Execution.Specialization
import HeaderRewrite.Execution.Splitting
import HeaderRewrite.Execution.Token
import HeaderRewrite.Execution.Transformation
