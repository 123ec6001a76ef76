/-!
A small catalog of employees, departments and orders, as a document.
-/

namespace SqlAnalysis.Catalog

def sampleLines : List String := [
  "default_schema: SALES",
  "schemas:",
  "  - name: SALES",
  "    tables:",
  "      - name: EMP",
  "        columns:",
  "          - \x7bname: EMPNO, type: INTEGER, nullable: false\x7d",
  "          - \x7bname: ENAME, type: VARCHAR, precision: 20, nullable: false\x7d",
  "          - \x7bname: JOB, type: VARCHAR, precision: 10, nullable: false\x7d",
  "          - \x7bname: MGR, type: INTEGER\x7d",
  "          - \x7bname: HIREDATE, type: TIMESTAMP, nullable: false\x7d",
  "          - \x7bname: SAL, type: INTEGER, nullable: false\x7d",
  "          - \x7bname: COMM, type: INTEGER, nullable: false\x7d",
  "          - \x7bname: DEPTNO, type: INTEGER, nullable: false\x7d",
  "          - \x7bname: SLACKER, type: BOOLEAN, nullable: false\x7d",
  "      - name: DEPT",
  "        columns:",
  "          - \x7bname: DEPTNO, type: INTEGER, nullable: false\x7d",
  "          - \x7bname: NAME, type: VARCHAR, precision: 10, nullable: false\x7d",
  "      - name: BONUS",
  "        columns:",
  "          - \x7bname: ENAME, type: VARCHAR, precision: 20, nullable: false\x7d",
  "          - \x7bname: JOB, type: VARCHAR, precision: 10, nullable: false\x7d",
  "          - \x7bname: SAL, type: INTEGER, nullable: false\x7d",
  "          - \x7bname: COMM, type: INTEGER, nullable: false\x7d",
  "      - name: SALGRADE",
  "        columns:",
  "          - \x7bname: GRADE, type: INTEGER, nullable: false\x7d",
  "          - \x7bname: LOSAL, type: INTEGER, nullable: false\x7d",
  "          - \x7bname: HISAL, type: INTEGER, nullable: false\x7d",
  "      - name: ORDERS",
  "        columns:",
  "          - \x7bname: ROWTIME, type: TIMESTAMP, nullable: false, monotonic: true\x7d",
  "          - \x7bname: PRODUCTID, type: INTEGER, nullable: false\x7d",
  "          - \x7bname: ORDERID, type: INTEGER, nullable: false\x7d",
  "          - \x7bname: UNITS, type: DECIMAL, precision: 7, scale: 2\x7d",
  "          - \x7bname: NOTE, type: VARCHAR, precision: 30, " ++
    "collation: ISO-8859-1$en_US$secondary\x7d",
  "    types:",
  "      - \x7bname: MONEY, type: DECIMAL, precision: 10, scale: 2\x7d"]

def sample : String := String.join (sampleLines.map (· ++ "\n"))

end SqlAnalysis.Catalog
